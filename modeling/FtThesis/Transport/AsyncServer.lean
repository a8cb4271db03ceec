/-
The reading side of the asynchronous server.

* `receiveMsgFromClient`: the read loop, by the results of the reads;
* `readCommonClientRequest`, `handleClientRequest`: one request, read into a buffer
  of which nothing is known before;
* `serve`: the requests that are handed over while the events last;
* `receive_of_quiet`, `receive_of_wait`: the read loop when the data comes without
  an interruption, and when a read finds no data in between;
* `weight_receive_le`, `weight_handleClientRequest_lt`: `serve` comes to an end.
-/
import FtThesis.Library.ReadLoops
import FtThesis.Transport.Message

namespace FtThesis

open Memory Socket

namespace AsyncServer

/-! ### Reading -/

/-- What `receiveMsgFromClient` leaves: the number of received bytes, or `none` for
`-1` when the client was removed, the buffer, and the events that are left. -/
structure Received where
  totalReceivedBytes : Option ℕ
  msg : Mem
  events : List Event

/-- `receiveMsgFromClient`: reads until `maximalReceivedBytes` bytes are there, the
next one to address `totalReceivedBytes`.  A read without data ends the loop; so
does a read that succeeds after a failed one, whose bytes are not counted. -/
def receiveMsgFromClient :
    List Event → (msg : Mem) → (totalReceivedBytes maximalReceivedBytes : ℕ) → Received
  | [], msg, total, _ => ⟨some total, msg, []⟩
  | .data b bs :: ev, msg, total, maximal =>
      if maximal ≤ total then ⟨some total, msg, .data b bs :: ev⟩
      else if bs.length + 1 ≤ maximal - total then
        receiveMsgFromClient ev (memcpy msg total (b :: bs)) (total + (bs.length + 1)) maximal
      else
        ⟨some maximal, memcpy msg total ((b :: bs).take (maximal - total)),
          pushBack ((b :: bs).drop (maximal - total)) ev⟩
  | .again :: ev, msg, total, maximal =>
      if maximal ≤ total then ⟨some total, msg, .again :: ev⟩ else ⟨some total, msg, ev⟩
  | .eof :: ev, msg, total, maximal =>
      if maximal ≤ total then ⟨some total, msg, .eof :: ev⟩ else ⟨none, msg, ev⟩
  | .fail :: ev, msg, total, maximal =>
      if maximal ≤ total then ⟨some total, msg, .fail :: ev⟩
      else
        match ev with
        | .data b bs :: ev =>
            ⟨some total, memcpy msg total ((b :: bs).take (maximal - total)),
              pushBack ((b :: bs).drop (maximal - total)) ev⟩
        | ev => ⟨none, msg, ev.tail⟩

/-- What `readCommonClientRequest` leaves: the length and the command, with `none`
for `-1`, the buffer, whether the client was removed, and the events that are
left. -/
structure CommonRequest where
  msgLen : Option ℕ
  command : Option ℕ
  msg : Mem
  removed : Bool
  events : List Event

/-- `readCommonClientRequest`. -/
def readCommonClientRequest (ev : List Event) (msg : Mem) : CommonRequest :=
  let r := receiveMsgFromClient ev msg 0 8
  match r.totalReceivedBytes with
  | none => ⟨none, none, r.msg, true, r.events⟩
  | some total =>
      let msgLen := checkLength (read r.msg 0 7) 1
      let command := checkLength (read r.msg 7 1) 0
      -- without a length, `-1 + 7 + 1` bytes are read
      let maximal := msgLen.elim 7 (· + 8)
      let r := receiveMsgFromClient r.events r.msg total maximal
      ⟨msgLen, command, r.msg, r.totalReceivedBytes.isNone, r.events⟩

/-- What is handed to `deserializeClientRequest`: the command and the payload. -/
abbrev Dispatch := Option ℕ × List UInt8

/-- `handleClientRequest`, with the contents `msg` of the new buffer: what it hands
over, whether the client was removed, and the events that are left. -/
def handleClientRequest (msg : Mem) (ev : List Event) : Option Dispatch × Bool × List Event :=
  let r := readCommonClientRequest ev msg
  (r.msgLen.map fun msgLen => (r.command, read r.msg 8 msgLen), r.removed, r.events)

/-! ### The read loop on data -/

lemma readsData_receiveMsgFromClient :
    ReadsData receiveMsgFromClient fun ev m total => ⟨some total, m, ev⟩ where
  done ev m total maximal h := by
    cases ev with
    | nil => rfl
    | cons e ev => cases e <;> simp [receiveMsgFromClient, h]
  chunk b bs ev m total maximal hlt hle := by
    simp only [receiveMsgFromClient, if_neg (Nat.not_le.mpr hlt), if_pos hle]
  split b bs ev m total maximal hlt hgt := by
    simp only [receiveMsgFromClient, if_neg (Nat.not_le.mpr hlt), if_neg (Nat.not_le.mpr hgt)]

section

variable {ev : List Event} (hev : Delivers ev)

include hev

/-- If no read without data comes before the `k`-th byte, the next `k` bytes are
received. -/
lemma receive_of_quiet {k : ℕ} (hk : k ≤ (stream ev).length) (hquiet : ∀ p ∈ waits ev, k ≤ p)
    (msg : Mem) (total : ℕ) :
    receiveMsgFromClient ev msg total (total + k)
      = ⟨some (total + k), memcpy msg total ((stream ev).take k), advance ev k⟩ :=
  readsData_receiveMsgFromClient.of_quiet hev hk hquiet msg total

/-- If the first read without data comes after `p` bytes, these are received only. -/
lemma receive_of_wait {p : ℕ} (hp : p ∈ waits ev) (hfirst : ∀ q ∈ waits ev, p ≤ q) (msg : Mem)
    (total : ℕ) {maximal : ℕ} (hlt : total + p < maximal) :
    (receiveMsgFromClient ev msg total maximal).totalReceivedBytes = some (total + p) ∧
      (receiveMsgFromClient ev msg total maximal).msg
        = memcpy msg total ((stream ev).take p) := by
  induction ev generalizing p msg total with
  | nil => simp [waits] at hp
  | cons e ev ih =>
      have hneg : ¬ maximal ≤ total := by omega
      cases e with
      | data b bs =>
          obtain ⟨q, hq, rfl⟩ := List.mem_map.mp hp
          have hle : bs.length + 1 ≤ maximal - total := by omega
          have hrest := ih hev.tail hq (fun r hr => by
            have := hfirst (r + (bs.length + 1)) (List.mem_map.mpr ⟨r, hr, rfl⟩)
            omega) (memcpy msg total (b :: bs)) (total + (bs.length + 1)) (by omega)
          simp only [receiveMsgFromClient, if_neg hneg, if_pos hle, hrest, take_stream_chunk,
            ← memcpy_append, List.length_cons]
          exact ⟨by congr 1; omega, trivial⟩
      | again =>
          obtain rfl : p = 0 := Nat.le_zero.mp (hfirst 0 (by simp [waits]))
          simp [receiveMsgFromClient, hneg, memcpy_nil]
      | fail => exact absurd rfl (hev .fail (by simp)).1
      | eof => exact absurd rfl (hev .eof (by simp)).2

end

/-! ### The loop comes to an end -/

lemma weight_receive_le (ev : List Event) (msg : Mem) (total maximal : ℕ) :
    weight (receiveMsgFromClient ev msg total maximal).events ≤ weight ev := by
  induction ev generalizing msg total with
  | nil => simp [receiveMsgFromClient]
  | cons e ev ih =>
      cases e with
      | data b bs =>
          simp only [receiveMsgFromClient]
          split_ifs with h₁ h₂
          · exact le_rfl
          · exact (ih _ _).trans (by simp only [weight]; omega)
          · exact (weight_pushBack_drop_lt b bs ev (by omega)).le
      | again =>
          simp only [receiveMsgFromClient]
          split_ifs <;> simp [weight]
      | eof =>
          simp only [receiveMsgFromClient]
          split_ifs <;> simp [weight]
      | fail =>
          rcases ev with _ | ⟨e, ev⟩
          · simp only [receiveMsgFromClient]
            split_ifs <;> simp [weight]
          · cases e with
            | data b bs =>
                simp only [receiveMsgFromClient]
                split_ifs
                · exact le_rfl
                · exact (weight_pushBack_drop_lt b bs ev (by omega)).le.trans (Nat.le_add_left _ _)
            | _ =>
                simp only [receiveMsgFromClient]
                split_ifs
                · exact le_rfl
                · simp [weight]
                  omega

/-- A read loop that has bytes to read takes at least one event or byte. -/
lemma weight_receive_lt {e : Event} {ev : List Event} {msg : Mem} {total maximal : ℕ}
    (h : total < maximal) :
    weight (receiveMsgFromClient (e :: ev) msg total maximal).events < weight (e :: ev) := by
  cases e with
  | data b bs =>
      simp only [receiveMsgFromClient, if_neg (Nat.not_le.mpr h)]
      split_ifs
      · calc weight (receiveMsgFromClient ev _ _ maximal).events
            ≤ weight ev := weight_receive_le _ _ _ _
          _ < bs.length + 2 + weight ev := by omega
      · exact weight_pushBack_drop_lt b bs ev (by omega)
  | fail =>
      have hrest := weight_receive_le ev msg total maximal
      rcases ev with _ | ⟨e, ev⟩
      · simp [receiveMsgFromClient, weight, Nat.not_le.mpr h]
      · cases e with
        | data b bs =>
            simp only [receiveMsgFromClient, if_neg (Nat.not_le.mpr h)]
            exact (weight_pushBack_drop_lt b bs ev (by omega)).trans_le (Nat.le_add_left _ _)
        | _ =>
            simp only [receiveMsgFromClient, if_neg (Nat.not_le.mpr h)]
            simp [weight]
            omega
  | _ => simp [receiveMsgFromClient, weight, Nat.not_le.mpr h]

lemma weight_handleClientRequest_lt (msg : Mem) (e : Event) (ev : List Event) :
    weight (handleClientRequest msg (e :: ev)).2.2 < weight (e :: ev) := by
  have hfirst : weight (receiveMsgFromClient (e :: ev) msg 0 8).events < weight (e :: ev) :=
    weight_receive_lt (by decide)
  simp only [handleClientRequest, readCommonClientRequest]
  cases htotal : (receiveMsgFromClient (e :: ev) msg 0 8).totalReceivedBytes with
  | none => exact hfirst
  | some total => exact (weight_receive_le _ _ _ _).trans_lt hfirst

/-- The loop of a thread for one socket: it waits for data and handles a request, until
nothing more comes or the client is removed.  The buffer of the request number `i`
contains `garbage i` before. -/
def serve (garbage : ℕ → Mem) (ev : List Event) : List Dispatch :=
  match _h : awaitData ev with
  | [] => []
  | e :: ev' =>
      let r := handleClientRequest (garbage 0) (e :: ev')
      r.1.toList ++ if r.2.1 then [] else serve (fun i => garbage (i + 1)) r.2.2
termination_by weight ev
decreasing_by
  calc weight (handleClientRequest (garbage 0) (e :: ev')).2.2
      < weight (e :: ev') := weight_handleClientRequest_lt (garbage 0) e ev'
    _ ≤ weight ev := _h ▸ weight_awaitData_le ev

end AsyncServer

end FtThesis
