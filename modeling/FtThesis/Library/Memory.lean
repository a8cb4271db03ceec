/-
Buffers of bytes, and values of fixed size laid out in them.

* `Mem`, `memcpy`, `read`, `memmove`: a buffer, a copy into it, the bytes of a range, and a copy
  of a range to a place that it may overlap;
* `Codec`: a way to lay out a value at an address, with its three laws: nothing
  outside its bytes changes, only its bytes are read, and what was put is got;
* `word16`, `word32`, `word64`, `bytes`: the codecs of little-endian words and of
  byte arrays;
* `Codec.prod`, `Codec.map`, `Codec.pad`: a codec after another one, a codec of
  an equivalent type, and a codec with bytes that it skips at its end;
* `Codec.putList`, `Codec.getList`: arrays of values side by side, with
  `getList_putList` and the frame and congruence laws of a codec;
* `putCounted`, `getCounted`: an array behind its length, and the round trip
  `getCounted_of_agreeOn`;
* `WritesBelow`: a bound for the addresses to which a function writes, with
  `writesBelow_putList_iff` for an array of `uint64_t`.
-/
import Mathlib.Tactic

namespace Memory

/-- A buffer: a byte at every address. -/
abbrev Mem := ℕ → UInt8

/-- The bytes `bs` copied to address `p`. -/
def memcpy (m : Mem) (p : ℕ) (bs : List UInt8) : Mem :=
  fun q => if p ≤ q then bs.getD (q - p) (m q) else m q

/-- The `n` bytes from address `p`. -/
def read (m : Mem) (p n : ℕ) : List UInt8 := (List.range n).map fun i => m (p + i)

@[simp] lemma length_read (m : Mem) (p n : ℕ) : (read m p n).length = n := by simp [read]

lemma memcpy_of_lt {m : Mem} {p q : ℕ} {bs : List UInt8} (h : q < p ∨ p + bs.length ≤ q) :
    memcpy m p bs q = m q := by
  rw [memcpy]
  split_ifs with hp
  · rw [List.getD_eq_getElem?_getD, List.getElem?_eq_none (by omega), Option.getD_none]
  · rfl

lemma memcpy_getElem {m : Mem} {p i : ℕ} {bs : List UInt8} (h : i < bs.length) :
    memcpy m p bs (p + i) = bs[i] := by
  simp [memcpy, h]

@[simp] lemma memcpy_nil (m : Mem) (p : ℕ) : memcpy m p [] = m := by
  funext q
  exact memcpy_of_lt (by simp; omega)

/-- A copy behind a copy is one copy. -/
lemma memcpy_append (m : Mem) (p : ℕ) (as bs : List UInt8) :
    memcpy (memcpy m p as) (p + as.length) bs = memcpy m p (as ++ bs) := by
  funext q
  by_cases h₁ : q < p
  · rw [memcpy_of_lt (.inl (by omega)), memcpy_of_lt (.inl h₁), memcpy_of_lt (.inl h₁)]
  · obtain ⟨i, rfl⟩ := Nat.exists_eq_add_of_le (Nat.not_lt.mp h₁)
    by_cases h₂ : i < as.length
    · rw [memcpy_of_lt (.inl (by omega)), memcpy_getElem h₂,
        memcpy_getElem (by rw [List.length_append]; omega), List.getElem_append_left h₂]
    · obtain ⟨j, rfl⟩ := Nat.exists_eq_add_of_le (Nat.not_lt.mp h₂)
      by_cases h₃ : j < bs.length
      · rw [← Nat.add_assoc, memcpy_getElem h₃, Nat.add_assoc,
          memcpy_getElem (by rw [List.length_append]; omega),
          List.getElem_append_right (by omega)]
        simp
      · rw [memcpy_of_lt (.inr (by omega)), memcpy_of_lt (.inr (by omega)),
          memcpy_of_lt (.inr (by rw [List.length_append]; omega))]

/-- A copy in two parts. -/
lemma memcpy_take_drop (m : Mem) (p : ℕ) (bs : List UInt8) {n : ℕ} (h : n ≤ bs.length) :
    memcpy (memcpy m p (bs.take n)) (p + n) (bs.drop n) = memcpy m p bs := by
  have hcopy := memcpy_append m p (bs.take n) (bs.drop n)
  rwa [List.length_take, min_eq_left h, List.take_append_drop] at hcopy

/-- The bytes of a range that was copied into. -/
lemma read_memcpy (m : Mem) (bs : List UInt8) {p n : ℕ} (h : p + n ≤ bs.length) :
    read (memcpy m 0 bs) p n = (bs.drop p).take n := by
  refine List.ext_getElem (by simp; omega) fun i hi _ => ?_
  rw [length_read] at hi
  have hcopy := memcpy_getElem (m := m) (p := 0) (show p + i < bs.length by omega)
  rw [Nat.zero_add] at hcopy
  simp [read, hcopy]

/-- A range in two parts. -/
lemma read_add (m : Mem) (p n k : ℕ) : read m p (n + k) = read m p n ++ read m (p + n) k := by
  simp only [read, List.range_add, List.map_append, List.map_map]
  refine congrArg _ (List.map_congr_left fun i _ => ?_)
  rw [Function.comp_apply, Nat.add_assoc]

/-- Two buffers with the same bytes from `p` to `p + n`. -/
def AgreeOn (m m' : Mem) (p n : ℕ) : Prop := ∀ q, p ≤ q → q < p + n → m q = m' q

lemma AgreeOn.mono {m m' : Mem} {p n p' n' : ℕ} (h : AgreeOn m m' p n) (hp : p ≤ p')
    (hn : p' + n' ≤ p + n) : AgreeOn m m' p' n' :=
  fun q h1 h2 => h q (by omega) (by omega)

lemma AgreeOn.trans {m m' m'' : Mem} {p n : ℕ} (h : AgreeOn m m' p n) (h' : AgreeOn m' m'' p n) :
    AgreeOn m m'' p n :=
  fun q h1 h2 => (h q h1 h2).trans (h' q h1 h2)

/-- The bytes of a range where two buffers agree. -/
lemma AgreeOn.read_eq {m m' : Mem} {p n : ℕ} (h : AgreeOn m m' p n) : read m p n = read m' p n :=
  List.map_congr_left fun i hi => h (p + i) (by omega) (by have := List.mem_range.mp hi; omega)

/-- What was copied to a place is read there. -/
lemma read_memcpy_self (m : Mem) (p : ℕ) (bs : List UInt8) :
    read (memcpy m p bs) p bs.length = bs := by
  refine List.ext_getElem (by simp) fun i hi hi' => ?_
  simp [read, memcpy, hi']

/-- A copy leaves what is behind it. -/
lemma read_memcpy_of_le (m : Mem) {p q : ℕ} {bs : List UInt8} (h : p + bs.length ≤ q) (n : ℕ) :
    read (memcpy m p bs) q n = read m q n :=
  AgreeOn.read_eq fun _ hq _ => memcpy_of_lt (.inr (by omega))

/-- `n` bytes moved from `src` to `dst`, all of them read before the first one is written. -/
def memmove (m : Mem) (dst src n : ℕ) : Mem := memcpy m dst (read m src n)

/-- A copy of the first bytes of a buffer agrees with it there. -/
lemma agreeOn_memcpy_read (m m' : Mem) (n : ℕ) : AgreeOn m (memcpy m' 0 (read m 0 n)) 0 n := by
  intro q _ hq
  have hlen : q < (read m 0 n).length := by
    rw [length_read]
    omega
  have h := memcpy_getElem (m := m') (p := 0) hlen
  rw [Nat.zero_add] at h
  rw [h]
  simp [read]

/-! ### Codecs -/

/-- A way to lay out a value of type `α` in `size` bytes. -/
structure Codec (α : Type*) where
  size : ℕ
  put : α → Mem → ℕ → Mem
  get : Mem → ℕ → α
  put_frame : ∀ a m p q, q < p ∨ p + size ≤ q → put a m p q = m q
  get_congr : ∀ m m' p, AgreeOn m m' p size → get m p = get m' p
  get_put : ∀ a m p, get (put a m p) p = a

namespace Codec

variable {α β : Type*}

lemma agreeOn_put_of_disjoint (c : Codec α) (a : α) (m : Mem) {p q n : ℕ}
    (h : q + n ≤ p ∨ p + c.size ≤ q) : AgreeOn m (c.put a m p) q n :=
  fun r _ _ => (c.put_frame a m p r (by omega)).symm

/-- A value is not changed by a put elsewhere. -/
lemma get_put_of_disjoint (c : Codec α) (d : Codec β) (b : β) (m : Mem) {p q : ℕ}
    (h : p + c.size ≤ q ∨ q + d.size ≤ p) : c.get (d.put b m q) p = c.get m p :=
  c.get_congr _ _ _ fun r h1 h2 => d.put_frame b m q r (by omega)

/-- Two values side by side. -/
def prod (c : Codec α) (d : Codec β) : Codec (α × β) where
  size := c.size + d.size
  put ab m p := d.put ab.2 (c.put ab.1 m p) (p + c.size)
  get m p := (c.get m p, d.get m (p + c.size))
  put_frame ab m p q h := by
    rw [d.put_frame _ _ _ _ (by omega), c.put_frame _ _ _ _ (by omega)]
  get_congr m m' p h := by
    rw [c.get_congr m m' p (h.mono (by omega) (by omega)),
      d.get_congr m m' _ (h.mono (by omega) (by omega))]
  get_put ab m p := by
    rw [c.get_put_of_disjoint d _ _ (by omega), c.get_put, d.get_put]

/-- The codec of an equivalent type. -/
def map (c : Codec α) (e : β ≃ α) : Codec β where
  size := c.size
  put b := c.put (e b)
  get m p := e.symm (c.get m p)
  put_frame b := c.put_frame (e b)
  get_congr m m' p h := by rw [c.get_congr m m' p h]
  get_put b m p := by rw [c.get_put, e.symm_apply_apply]

/-- A value and `k` bytes behind it that are neither written nor read. -/
def pad (c : Codec α) (k : ℕ) : Codec α where
  size := c.size + k
  put := c.put
  get := c.get
  put_frame a m p q h := c.put_frame a m p q (by omega)
  get_congr m m' p h := c.get_congr m m' p (h.mono le_rfl (by omega))
  get_put := c.get_put

/-! ### Arrays -/

/-- The values of a list, one behind the other. -/
def putList (c : Codec α) : List α → Mem → ℕ → Mem
  | [], m, _ => m
  | a :: as, m, p => c.putList as (c.put a m p) (p + c.size)

/-- `n` values, one behind the other. -/
def getList (c : Codec α) : ℕ → Mem → ℕ → List α
  | 0, _, _ => []
  | n + 1, m, p => c.get m p :: c.getList n m (p + c.size)

lemma length_getList (c : Codec α) (n : ℕ) (m : Mem) (p : ℕ) : (c.getList n m p).length = n := by
  induction n generalizing p with
  | zero => rfl
  | succ n ih => rw [getList, List.length_cons, ih]

lemma putList_frame (c : Codec α) (as : List α) (m : Mem) {p q : ℕ}
    (h : q < p ∨ p + as.length * c.size ≤ q) : c.putList as m p q = m q := by
  induction as generalizing m p with
  | nil => rfl
  | cons a as ih =>
      rw [List.length_cons, Nat.succ_mul] at h
      rw [putList, ih _ (by omega), c.put_frame _ _ _ _ (by omega)]

lemma getList_congr (c : Codec α) {m m' : Mem} {n p : ℕ}
    (h : AgreeOn m m' p (n * c.size)) : c.getList n m p = c.getList n m' p := by
  induction n generalizing p with
  | zero => rfl
  | succ n ih =>
      rw [Nat.succ_mul] at h
      rw [getList, getList, c.get_congr m m' p (h.mono le_rfl (by omega)),
        ih (h.mono (by omega) (by omega))]

lemma putList_concat (c : Codec α) (as : List α) (a : α) (m : Mem) (p : ℕ) :
    c.putList (as ++ [a]) m p = c.put a (c.putList as m p) (p + as.length * c.size) := by
  induction as generalizing m p with
  | nil => simp [putList]
  | cons b as ih =>
      rw [List.cons_append, putList, ih, putList, List.length_cons, Nat.succ_mul, Nat.add_assoc,
        Nat.add_comm c.size]

lemma get_putList_of_disjoint (c : Codec α) (d : Codec β) (bs : List β) (m : Mem) {p q : ℕ}
    (h : p + c.size ≤ q ∨ q + bs.length * d.size ≤ p) :
    c.get (d.putList bs m q) p = c.get m p :=
  c.get_congr _ _ _ fun r h1 h2 => d.putList_frame bs m (by omega)

/-- What was put is got. -/
theorem getList_putList (c : Codec α) (as : List α) (m : Mem) (p : ℕ) :
    c.getList as.length (c.putList as m p) p = as := by
  induction as generalizing m p with
  | nil => rfl
  | cons a as ih =>
      rw [List.length_cons, getList, putList, ih, c.get_putList_of_disjoint c as _ (by omega),
        c.get_put]

end Codec

/-! ### Words and byte arrays -/

/-- The `n` low bytes of a number, the lowest first. -/
def putWord : ℕ → ℕ → Mem → ℕ → Mem
  | 0, _, m, _ => m
  | n + 1, v, m, p => putWord n (v / 256) (Function.update m p (UInt8.ofNat v)) (p + 1)

/-- The number with the `n` bytes from `p`, the lowest first. -/
def getWord : ℕ → Mem → ℕ → ℕ
  | 0, _, _ => 0
  | n + 1, m, p => (m p).toNat + 256 * getWord n m (p + 1)

lemma putWord_frame (n v : ℕ) (m : Mem) {p q : ℕ} (h : q < p ∨ p + n ≤ q) :
    putWord n v m p q = m q := by
  induction n generalizing v m p with
  | zero => rfl
  | succ n ih => rw [putWord, ih _ _ (by omega), Function.update_of_ne (by omega)]

lemma getWord_congr {n : ℕ} {m m' : Mem} {p : ℕ} (h : AgreeOn m m' p n) :
    getWord n m p = getWord n m' p := by
  induction n generalizing p with
  | zero => rfl
  | succ n ih =>
      rw [getWord, getWord, h p le_rfl (by omega), ih (h.mono (by omega) (by omega))]

lemma getWord_putWord (n v : ℕ) (m : Mem) (p : ℕ) :
    getWord n (putWord n v m p) p = v % 256 ^ n := by
  induction n generalizing v m p with
  | zero => simp [getWord, Nat.mod_one]
  | succ n ih =>
      have hbyte : (UInt8.ofNat v).toNat = v % 256 := UInt8.toNat_ofNat'
      rw [getWord, putWord, ih, putWord_frame _ _ _ (by omega), Function.update_self, hbyte,
        pow_succ', Nat.mod_mul]

/-- A word that is copied is copied byte by byte. -/
lemma agreeOn_putWord_getWord (n : ℕ) (m m' : Mem) (p : ℕ) :
    AgreeOn m (putWord n (getWord n m p) m' p) p n := by
  induction n generalizing m' p with
  | zero => exact fun q _ _ => by omega
  | succ n ih =>
      have hdiv : getWord (n + 1) m p / 256 = getWord n m (p + 1) := by
        have hlt := (m p).toNat_lt
        rw [getWord]
        omega
      have hbyte : UInt8.ofNat (getWord (n + 1) m p) = m p := by
        rw [← UInt8.toNat_inj, UInt8.toNat_ofNat', getWord]
        have hlt := (m p).toNat_lt
        omega
      intro q hp hq
      rw [putWord, hdiv, hbyte]
      rcases hp.eq_or_lt with rfl | hlt
      · rw [putWord_frame _ _ _ (by omega), Function.update_self]
      · exact ih _ _ q hlt (by omega)

lemma getWord_lt (n : ℕ) (m : Mem) (p : ℕ) : getWord n m p < 256 ^ n := by
  induction n generalizing p with
  | zero => simp [getWord]
  | succ n ih =>
      have hrest := ih (p + 1)
      have hlt := (m p).toNat_lt
      rw [getWord, pow_succ']
      omega

/-- The last byte of a word is its highest one. -/
lemma putWord_last (n v : ℕ) (m : Mem) (p : ℕ) :
    putWord (n + 1) v m p (p + n) = UInt8.ofNat (v / 256 ^ n) := by
  induction n generalizing v m p with
  | zero => simp [putWord]
  | succ n ih =>
      rw [putWord, show p + (n + 1) = p + 1 + n by omega, ih, Nat.div_div_eq_div_mul, ← pow_succ']

/-- `uint16_t`. -/
def word16 : Codec UInt16 where
  size := 2
  put a := putWord 2 a.toNat
  get m p := UInt16.ofNat (getWord 2 m p)
  put_frame a m p q h := putWord_frame 2 _ m h
  get_congr m m' p h := by rw [getWord_congr h]
  get_put a m p := by
    rw [getWord_putWord, Nat.mod_eq_of_lt (by simpa using a.toNat_lt), UInt16.ofNat_toNat]

/-- `uint32_t`. -/
def word32 : Codec UInt32 where
  size := 4
  put a := putWord 4 a.toNat
  get m p := UInt32.ofNat (getWord 4 m p)
  put_frame a m p q h := putWord_frame 4 _ m h
  get_congr m m' p h := by rw [getWord_congr h]
  get_put a m p := by
    rw [getWord_putWord, Nat.mod_eq_of_lt (by simpa using a.toNat_lt), UInt32.ofNat_toNat]

/-- `uint64_t`. -/
def word64 : Codec UInt64 where
  size := 8
  put a := putWord 8 a.toNat
  get m p := UInt64.ofNat (getWord 8 m p)
  put_frame a m p q h := putWord_frame 8 _ m h
  get_congr m m' p h := by rw [getWord_congr h]
  get_put a m p := by
    rw [getWord_putWord, Nat.mod_eq_of_lt (by simpa using a.toNat_lt), UInt64.ofNat_toNat]

lemma word16_copies (m m' : Mem) (p : ℕ) :
    AgreeOn m (word16.put (word16.get m p) m' p) p 2 := by
  change AgreeOn m (putWord 2 (UInt16.ofNat (getWord 2 m p)).toNat m' p) p 2
  rw [UInt16.toNat_ofNat_of_lt' (getWord_lt 2 m p)]
  exact agreeOn_putWord_getWord 2 m m' p

lemma word64_copies (m m' : Mem) (p : ℕ) :
    AgreeOn m (word64.put (word64.get m p) m' p) p 8 := by
  change AgreeOn m (putWord 8 (UInt64.ofNat (getWord 8 m p)).toNat m' p) p 8
  rw [UInt64.toNat_ofNat_of_lt' (getWord_lt 8 m p)]
  exact agreeOn_putWord_getWord 8 m m' p

/-- `char[n]`. -/
def bytes (n : ℕ) : Codec (Vector UInt8 n) where
  size := n
  put v m p := memcpy m p v.toList
  get m p := Vector.ofFn fun i => m (p + i)
  put_frame v m p q h := memcpy_of_lt (by simpa using h)
  get_congr m m' p h := by
    congr 1
    funext i
    exact h _ (by omega) (by omega)
  get_put v m p := by
    ext i hi
    rw [Vector.getElem_ofFn, memcpy_getElem (by simpa using hi)]
    simp

/-! ### Counted arrays -/

section Counted

variable {α : Type*} (c : Codec α) (as : List α)

/-- The number of values as a `uint16_t`, and the values behind it. -/
def putCounted (m : Mem) (p : ℕ) : Mem :=
  c.putList as (word16.put (UInt16.ofNat as.length) m p) (p + 2)

/-- As many values as the `uint16_t` in front of them says. -/
def getCounted (m : Mem) (p : ℕ) : List α :=
  c.getList (word16.get m p).toNat m (p + 2)

lemma agreeOn_putCounted_of_disjoint (m : Mem) {p q n : ℕ}
    (h : q + n ≤ p ∨ p + (2 + as.length * c.size) ≤ q) : AgreeOn m (putCounted c as m p) q n := by
  intro r _ _
  rw [putCounted, c.putList_frame as _ (by omega),
    word16.put_frame _ _ _ _ (by simp [word16]; omega)]

/-- A buffer that agrees with the one to which the values were put has them. -/
lemma getCounted_of_agreeOn (hlen : as.length < 2 ^ 16) {m m' : Mem} {p : ℕ}
    (h : AgreeOn (putCounted c as m p) m' p (2 + as.length * c.size)) :
    getCounted c m' p = as := by
  have hcount : (word16.get m' p).toNat = as.length := by
    rw [← word16.get_congr _ _ p (h.mono le_rfl (by simp [word16])), putCounted,
      word16.get_putList_of_disjoint c as _ (by simp [word16]), word16.get_put,
      UInt16.toNat_ofNat', Nat.mod_eq_of_lt hlen]
  rw [getCounted, hcount, ← c.getList_congr (h.mono (by omega) (by omega)), putCounted,
    c.getList_putList]

end Counted

/-! ### How far a function writes -/

/-- No byte from address `n` on is written, whatever the buffer contains. -/
def WritesBelow (f : Mem → Mem) (n : ℕ) : Prop := ∀ m q, n ≤ q → f m q = m q

/-- A byte that does not depend on the buffer is written. -/
lemma not_writesBelow_of_const {f : Mem → Mem} {n q : ℕ} {b : UInt8} (hq : n ≤ q)
    (h : ∀ m, f m q = b) : ¬ WritesBelow f n := by
  intro hf
  have hb : b = b + 1 := by rw [← hf (fun _ => b + 1) q hq, h]
  exact absurd hb (by simp)

/-- An array is written up to its end, behind anything that is written before it. -/
lemma writesBelow_putList_iff {f : Mem → Mem} {p n : ℕ} (hf : WritesBelow f p)
    {as : List UInt64} (hpos : as ≠ []) :
    WritesBelow (fun m => word64.putList as (f m) p) n ↔ p + as.length * 8 ≤ n := by
  constructor
  · intro h
    by_contra hlt
    obtain ⟨as, a, rfl⟩ := (List.eq_nil_or_concat' as).resolve_left hpos
    rw [List.length_append, List.length_singleton] at hlt
    refine not_writesBelow_of_const (q := p + as.length * 8 + 7)
      (b := UInt8.ofNat (a.toNat / 256 ^ 7)) (by omega) (fun m => ?_) h
    rw [word64.putList_concat]
    exact putWord_last 7 a.toNat _ _
  · intro hle m q hq
    exact (word64.putList_frame as _ (.inr (by simp only [word64]; omega))).trans
      (hf m q (by omega))

/-- An array at the beginning of a buffer. -/
lemma writesBelow_putList_zero_iff {n : ℕ} (as : List UInt64) :
    WritesBelow (fun m => word64.putList as m 0) n ↔ as.length * 8 ≤ n := by
  by_cases hnil : as = []
  · subst hnil
    exact iff_of_true (fun _ _ _ => rfl) (by simp)
  · have h := writesBelow_putList_iff (f := id) (p := 0) (n := n) (fun _ _ _ => rfl) hnil
    rwa [Nat.zero_add] at h

end Memory
