/-
The `Socket` element, which takes the replayed packets from the packet logger.

The element reads one packet in each call of `selected`, its length first.  It keeps
nothing of a length or a packet of which only a part has come.

* `ClickSocket.receiveMsgFromClient`, `readPacketLen`, `selected`: the functions;
* `callbacks`: what is pushed by the calls of `selected`, one after the other;
* `ReplayedPacket`: a packet on the connection;
* `callbacks_of_quiet`: a packet that is not interrupted is pushed as it was sent;
* `not_pushes_of_wait`: after a read within a packet that finds no data, not all of the
  packets are pushed as they are stored;
* `callbacks_eq_stored_iff`: when the stored packets are pushed.
-/
import FtThesis.PacketLogger.Server
import FtThesis.Transport.AsyncServer

namespace FtThesis

open Memory Socket Decimals

namespace ClickSocket

/-! ### The functions of the element -/

/-- What `receiveMsgFromClient` leaves: the number of received bytes, or `none` for `-1`
at the end of the connection, the buffer, whether `errno` is `EAGAIN`, and the events that
are left. -/
structure Received where
  totalReceivedBytes : Option ℕ
  msg : Mem
  errnoAgain : Bool
  events : List Event

/-- `receiveMsgFromClient`: a read without success ends the loop with what has come before.
When there are no more events, nothing more comes. -/
def receiveMsgFromClient : List Event → (errnoAgain : Bool) → (msg : Mem) →
    (totalReceivedBytes maximalReceivedBytes : ℕ) → Received
  | [], errno, msg, total, maximal =>
      if maximal ≤ total then ⟨some total, msg, errno, []⟩ else ⟨some total, msg, true, []⟩
  | .data b bs :: ev, errno, msg, total, maximal =>
      if maximal ≤ total then ⟨some total, msg, errno, .data b bs :: ev⟩
      else if bs.length + 1 ≤ maximal - total then
        receiveMsgFromClient ev errno (memcpy msg total (b :: bs)) (total + (bs.length + 1)) maximal
      else
        ⟨some maximal, memcpy msg total ((b :: bs).take (maximal - total)), errno,
          pushBack ((b :: bs).drop (maximal - total)) ev⟩
  | .again :: ev, errno, msg, total, maximal =>
      if maximal ≤ total then ⟨some total, msg, errno, .again :: ev⟩
      else ⟨some total, msg, true, ev⟩
  | .fail :: ev, errno, msg, total, maximal =>
      if maximal ≤ total then ⟨some total, msg, errno, .fail :: ev⟩
      else ⟨some total, msg, false, ev⟩
  | .eof :: ev, errno, msg, total, maximal =>
      if maximal ≤ total then ⟨some total, msg, errno, .eof :: ev⟩ else ⟨none, msg, errno, ev⟩

/-- `readPacketLen`: the length, with `none` for `-1`, and what the read loop leaves.  The
buffer of the digits is cleared before. -/
def readPacketLen (errnoAgain : Bool) (ev : List Event) : Option ℕ × Received :=
  let r := receiveMsgFromClient ev errnoAgain (fun _ => 0) 0 7
  (r.totalReceivedBytes.bind fun _ => checkLength (read r.msg 0 7) 1, r)

/-- What a call of `selected` leaves: the packet that is pushed, whether the connection is
closed, and the events that are left. -/
structure Selected where
  pushed : Option (List UInt8)
  closed : Bool
  events : List Event

/-- The stream branch of `selected`, with the contents `rq` of the new packet.  Whatever
has come of a packet, the packet is pushed with the length that was announced. -/
def selected (rq : Mem) (errnoAgain : Bool) (ev : List Event) : Selected :=
  match readPacketLen errnoAgain ev with
  | (none, r) => ⟨none, !r.errnoAgain, r.events⟩
  | (some packetLen, r) =>
      let r := receiveMsgFromClient r.events r.errnoAgain rq 0 packetLen
      match r.totalReceivedBytes with
      | none => ⟨none, !r.errnoAgain, r.events⟩
      | some 0 => ⟨none, true, r.events⟩
      | some (_ + 1) => ⟨some (read r.msg 0 packetLen), false, r.events⟩

/-! ### The read loop -/

/-- When the connection lasts, the read loop does what that of the server does. -/
lemma receive_eq {ev : List Event} (hev : Delivers ev) (errno : Bool) (msg : Mem)
    (total maximal : ℕ) :
    let r := AsyncServer.receiveMsgFromClient ev msg total maximal
    ∃ errno', receiveMsgFromClient ev errno msg total maximal
      = ⟨r.totalReceivedBytes, r.msg, errno', r.events⟩ := by
  induction ev generalizing msg total with
  | nil =>
      simp only [receiveMsgFromClient, AsyncServer.receiveMsgFromClient]
      split_ifs <;> exact ⟨_, rfl⟩
  | cons e ev ih =>
      cases e with
      | data b bs =>
          simp only [receiveMsgFromClient, AsyncServer.receiveMsgFromClient]
          split_ifs
          · exact ⟨_, rfl⟩
          · exact ih hev.tail _ _
          · exact ⟨_, rfl⟩
      | again =>
          simp only [receiveMsgFromClient, AsyncServer.receiveMsgFromClient]
          split_ifs <;> exact ⟨_, rfl⟩
      | fail => exact absurd rfl (hev .fail (by simp)).1
      | eof => exact absurd rfl (hev .eof (by simp)).2

/-- What the read loop leaves, except for the bytes, does not depend on the buffer. -/
lemma receive_msg (ev : List Event) (errno : Bool) (msg msg' : Mem) (total maximal : ℕ) :
    ∃ m, receiveMsgFromClient ev errno msg' total maximal
      = { receiveMsgFromClient ev errno msg total maximal with msg := m } := by
  induction ev generalizing msg msg' total with
  | nil =>
      simp only [receiveMsgFromClient]
      split_ifs <;> exact ⟨_, rfl⟩
  | cons e ev ih =>
      cases e with
      | data b bs =>
          simp only [receiveMsgFromClient]
          split_ifs
          · exact ⟨_, rfl⟩
          · exact ih _ _ _
          · exact ⟨_, rfl⟩
      | _ =>
          simp only [receiveMsgFromClient]
          split_ifs <;> exact ⟨_, rfl⟩

/-- While the connection lasts, the read loop takes the next bytes of the stream, not more
than it asks for. -/
lemma receive_takes {ev : List Event} (hev : Delivers ev) (errno : Bool) (msg : Mem) (total : ℕ)
    {maximal : ℕ} (hle : total ≤ maximal) :
    ∃ n, total + n ≤ maximal ∧ n ≤ (stream ev).length ∧
      (receiveMsgFromClient ev errno msg total maximal).totalReceivedBytes = some (total + n) ∧
      (receiveMsgFromClient ev errno msg total maximal).msg
        = memcpy msg total ((stream ev).take n) ∧
      stream (receiveMsgFromClient ev errno msg total maximal).events = (stream ev).drop n ∧
      Delivers (receiveMsgFromClient ev errno msg total maximal).events := by
  induction ev generalizing msg total with
  | nil =>
      refine ⟨0, hle, Nat.zero_le _, ?_⟩
      simp only [receiveMsgFromClient]
      split_ifs <;> simp [stream, hev]
  | cons e ev ih =>
      cases e with
      | data b bs =>
          simp only [receiveMsgFromClient]
          split_ifs with hdone hchunk
          · exact ⟨0, hle, Nat.zero_le _, by simp, by simp, by simp, hev⟩
          · obtain ⟨n, hn, hlen, htotal, hmsg, hstream, hdel⟩ :=
              ih hev.tail (memcpy msg total (b :: bs)) (total + (bs.length + 1)) (by omega)
            refine ⟨n + (bs.length + 1), by omega, ?_, ?_, ?_, ?_, hdel⟩
            · rw [length_stream_data]
              omega
            · rw [htotal]
              congr 1
              omega
            · rw [hmsg, take_stream_chunk, ← memcpy_append, List.length_cons]
            · rw [hstream, drop_stream_chunk]
          · obtain ⟨k, rfl⟩ := Nat.exists_eq_add_of_le hle
            rw [Nat.add_sub_cancel_left] at hchunk ⊢
            have hk : k ≤ bs.length + 1 := by omega
            refine ⟨k, le_rfl, ?_, rfl, ?_, ?_, delivers_pushBack hev.tail⟩
            · rw [stream, List.length_append, List.length_cons]
              omega
            · rw [take_stream_split b bs ev hk]
            · rw [drop_stream_split b bs ev hk]
      | again =>
          simp only [receiveMsgFromClient]
          split_ifs
          · exact ⟨0, hle, Nat.zero_le _, by simp, by simp, by simp, hev⟩
          · exact ⟨0, hle, Nat.zero_le _, by simp, by simp, by simp [stream], hev.tail⟩
      | fail => exact absurd rfl (hev .fail (by simp)).1
      | eof => exact absurd rfl (hev .eof (by simp)).2

/-! ### The calls of `selected` -/

lemma weight_receive_le (ev : List Event) (errno : Bool) (msg : Mem) (total maximal : ℕ) :
    weight (receiveMsgFromClient ev errno msg total maximal).events ≤ weight ev := by
  induction ev generalizing msg total with
  | nil =>
      simp only [receiveMsgFromClient]
      split_ifs <;> rfl
  | cons e ev ih =>
      cases e with
      | data b bs =>
          simp only [receiveMsgFromClient]
          split_ifs with h₁ h₂
          · exact le_rfl
          · exact (ih _ _).trans (by simp only [weight]; omega)
          · exact (weight_pushBack_drop_lt b bs ev (by omega)).le
      | _ =>
          simp only [receiveMsgFromClient]
          split_ifs <;> simp [weight]

/-- A read loop that has bytes to read takes at least one event or byte. -/
lemma weight_receive_lt (e : Event) (ev : List Event) (errno : Bool) (msg : Mem)
    {total maximal : ℕ} (h : total < maximal) :
    weight (receiveMsgFromClient (e :: ev) errno msg total maximal).events < weight (e :: ev) := by
  cases e with
  | data b bs =>
      simp only [receiveMsgFromClient, if_neg (Nat.not_le.mpr h)]
      split_ifs
      · calc weight (receiveMsgFromClient ev errno _ _ maximal).events
            ≤ weight ev := weight_receive_le _ _ _ _ _
          _ < bs.length + 2 + weight ev := by omega
      · exact weight_pushBack_drop_lt b bs ev (by omega)
  | _ => simp [receiveMsgFromClient, weight, Nat.not_le.mpr h]

lemma weight_selected_lt (rq : Mem) (errno : Bool) (e : Event) (ev : List Event) :
    weight (selected rq errno (e :: ev)).events < weight (e :: ev) := by
  have hfirst := weight_receive_lt e ev errno (fun _ => 0) (show 0 < 7 by decide)
  simp only [selected, readPacketLen]
  split
  · next heq =>
      injection heq with _ heq
      rwa [← heq]
  · next packetLen r heq =>
      injection heq with _ heq
      rw [heq] at hfirst
      split <;> exact (weight_receive_le _ _ _ _ _).trans_lt hfirst

/-- What the calls of `selected` push, one after the other, until nothing more comes or the
connection is closed.  Before the call number `i` the new packet contains `garbage i`, and
`errno` is `EAGAIN` if `errnoAgain i`. -/
def callbacks (garbage : ℕ → Mem) (errnoAgain : ℕ → Bool) : List Event → List (List UInt8)
  | [] => []
  | e :: ev =>
      let r := selected (garbage 0) (errnoAgain 0) (e :: ev)
      r.pushed.toList ++
        if r.closed then []
        else callbacks (fun i => garbage (i + 1)) (fun i => errnoAgain (i + 1)) r.events
termination_by ev => weight ev
decreasing_by exact weight_selected_lt (garbage 0) (errnoAgain 0) e ev

/-- Exactly the packets `ps` are pushed, whatever the new packets contain and whatever
`errno` is. -/
def Pushes (ev : List Event) (ps : List (List UInt8)) : Prop :=
  ∀ garbage errnoAgain, callbacks garbage errnoAgain ev = ps

lemma callbacks_of_ne_nil (garbage : ℕ → Mem) (errnoAgain : ℕ → Bool) {ev : List Event}
    (h : ev ≠ []) :
    callbacks garbage errnoAgain ev =
      (selected (garbage 0) (errnoAgain 0) ev).pushed.toList ++
        if (selected (garbage 0) (errnoAgain 0) ev).closed then []
        else callbacks (fun i => garbage (i + 1)) (fun i => errnoAgain (i + 1))
          (selected (garbage 0) (errnoAgain 0) ev).events := by
  cases ev with
  | nil => exact absurd rfl h
  | cons e ev => rw [callbacks]

/-- A call that finds no data changes nothing. -/
lemma pushes_awaitData_iff (ev : List Event) (ps : List (List UInt8)) :
    Pushes (awaitData ev) ps ↔ Pushes ev ps := by
  induction ev with
  | nil => rfl
  | cons e ev ih =>
      cases e with
      | again =>
          have hskip : awaitData (.again :: ev) = awaitData ev := by simp [awaitData]
          have hcall (rq : Mem) (errno : Bool) :
              selected rq errno (.again :: ev) = ⟨none, false, ev⟩ := by
            have hlen : checkLength (read (fun _ => 0) 0 7) 1 = none := by decide
            simp [selected, readPacketLen, receiveMsgFromClient, hlen]
          have hstep (garbage : ℕ → Mem) (errnoAgain : ℕ → Bool) :
              callbacks garbage errnoAgain (.again :: ev)
                = callbacks (fun i => garbage (i + 1)) (fun i => errnoAgain (i + 1)) ev := by
            rw [callbacks_of_ne_nil _ _ (by simp), hcall]
            simp
          rw [hskip, ih]
          constructor
          · intro h garbage errnoAgain
            rw [hstep, h]
          · intro h garbage errnoAgain
            have hshift := h (fun i => garbage (i - 1)) fun i => errnoAgain (i - 1)
            rwa [hstep] at hshift
      | _ => rfl

/-! ### How many bytes the pushed packets need -/

/-- The number of bytes that some packets need on the connection. -/
def wireLength (ps : List (List UInt8)) : ℕ := (ps.map fun packet => 7 + packet.length).sum

/-- If less than seven bytes of a length have come, there is no length. -/
lemma checkLength_cut {bs : List UInt8} (h : bs.length < 7) :
    checkLength (read (memcpy (fun _ => 0) 0 bs) 0 7) 1 = none := by
  rw [checkLength, if_neg]
  intro hall
  have hmem : (0 : UInt8) ∈ read (memcpy (fun _ => 0) 0 bs) 0 7 := by
    refine List.mem_map.mpr ⟨bs.length, List.mem_range.mpr h, ?_⟩
    exact memcpy_of_lt (.inr (by omega))
  exact absurd (List.all_eq_true.mp hall 0 hmem) (by decide)

/-- A packet of which a part is missing depends on what its memory contained. -/
lemma read_cut_ne {bs : List UInt8} {n : ℕ} (h : bs.length < n) :
    read (memcpy (fun _ => 1) 0 bs) 0 n ≠ read (memcpy (fun _ => 0) 0 bs) 0 n := by
  intro hbytes
  have hlast (b : UInt8) : (read (memcpy (fun _ => b) 0 bs) 0 n)[n - 1]? = some b := by
    have hlt : n - 1 < n := by omega
    have hbyte : memcpy (fun _ => b) 0 bs (n - 1) = b := memcpy_of_lt (.inr (by omega))
    simp [Memory.read, hlt, hbyte]
  have hsame := hlast 1
  rw [hbytes, hlast 0] at hsame
  exact absurd hsame (by decide)

/-- The length is read from seven bytes, or from less and then it is `-1`. -/
lemma readPacketLen_takes {ev : List Event} (hev : Delivers ev) (errno : Bool) :
    ∃ n, n ≤ (stream ev).length ∧
      stream (readPacketLen errno ev).2.events = (stream ev).drop n ∧
      Delivers (readPacketLen errno ev).2.events ∧
      (∀ l, (readPacketLen errno ev).1 = some l → n = 7) ∧
      (readPacketLen errno ev).2.totalReceivedBytes = some n := by
  obtain ⟨n, hn, hlen, htotal, hmsg, hstream, hdel⟩ :=
    receive_takes hev errno (fun _ => 0) 0 (Nat.zero_le 7)
  rw [Nat.zero_add] at hn htotal
  refine ⟨n, hlen, hstream, hdel, fun l hl => ?_, htotal⟩
  by_contra hne
  have hcut : ((stream ev).take n).length < 7 := by
    rw [List.length_take]
    omega
  simp only [readPacketLen, htotal, hmsg, Option.bind_some, checkLength_cut hcut] at hl
  exact absurd hl (by simp)

/-- Whether a packet is pushed and what is left does not depend on the new packet. -/
lemma selected_rq (errno : Bool) (ev : List Event) (rq rq' : Mem) :
    (selected rq' errno ev).pushed.isSome = (selected rq errno ev).pushed.isSome ∧
      (selected rq' errno ev).closed = (selected rq errno ev).closed ∧
      (selected rq' errno ev).events = (selected rq errno ev).events := by
  simp only [selected]
  rcases readPacketLen errno ev with ⟨_ | packetLen, r⟩
  · exact ⟨rfl, rfl, rfl⟩
  · obtain ⟨m, hm⟩ := receive_msg r.events r.errnoAgain rq rq' 0 packetLen
    simp only [hm]
    split <;> exact ⟨rfl, rfl, rfl⟩

/-- No bytes come back. -/
lemma selected_takes {ev : List Event} (hev : Delivers ev) (rq : Mem) (errno : Bool) :
    Delivers (selected rq errno ev).events ∧
      (stream (selected rq errno ev).events).length ≤ (stream ev).length := by
  obtain ⟨n, -, hstream, hdel, -, -⟩ := readPacketLen_takes hev errno
  have hle : (stream (readPacketLen errno ev).2.events).length ≤ (stream ev).length := by
    rw [hstream, List.length_drop]
    omega
  simp only [selected]
  rcases hread : readPacketLen errno ev with ⟨_ | packetLen, r⟩
  · simp only [hread] at hdel hle ⊢
    exact ⟨hdel, hle⟩
  · simp only [hread] at hdel hle ⊢
    obtain ⟨k, -, -, -, -, hstream', hdel'⟩ :=
      receive_takes hdel r.errnoAgain rq 0 (Nat.zero_le packetLen)
    have hle' : (stream (receiveMsgFromClient r.events r.errnoAgain rq 0 packetLen).events).length
        ≤ (stream ev).length := by
      rw [hstream', List.length_drop]
      exact (Nat.sub_le _ _).trans hle
    split <;> exact ⟨hdel', hle'⟩

/-- A packet that is pushed whatever the new packet contained has come as a whole. -/
lemma length_of_pushed {ev : List Event} (hev : Delivers ev) {errno : Bool} {packet : List UInt8}
    (h₀ : (selected (fun _ => 0) errno ev).pushed = some packet)
    (h₁ : (selected (fun _ => 1) errno ev).pushed = some packet) :
    (stream (selected (fun _ => 0) errno ev).events).length + (7 + packet.length)
      = (stream ev).length := by
  obtain ⟨n, hn, hstream, hdel, hseven, -⟩ := readPacketLen_takes hev errno
  simp only [selected] at h₀ h₁ ⊢
  rcases hread : readPacketLen errno ev with ⟨_ | packetLen, r⟩
  · simp [hread] at h₀
  · obtain rfl := hseven packetLen (by rw [hread])
    simp only [hread] at h₀ h₁ hstream hdel ⊢
    obtain ⟨k, hk, hklen, htotal, hmsg, hstream', -⟩ :=
      receive_takes hdel r.errnoAgain (fun _ => 0) 0 (Nat.zero_le packetLen)
    obtain ⟨m, hm⟩ := receive_msg r.events r.errnoAgain (fun _ => 0) (fun _ => 1) 0 packetLen
    obtain ⟨k', hk', -, htotal', hmsg', -, -⟩ :=
      receive_takes hdel r.errnoAgain (fun _ => 1) 0 (Nat.zero_le packetLen)
    have hkk : k' = k := by
      rw [hm] at htotal'
      rw [htotal] at htotal'
      have := Option.some.inj htotal'
      omega
    subst hkk
    rw [Nat.zero_add] at htotal hk htotal'
    rcases k' with _ | k
    · simp [htotal] at h₀
    · simp only [htotal] at h₀ ⊢
      simp only [htotal'] at h₁
      obtain rfl := Option.some.inj h₀
      have hbytes := Option.some.inj h₁
      rw [hmsg, hmsg'] at hbytes
      have hfull : k + 1 = packetLen := by
        by_contra hne
        have hshort : ((stream r.events).take (k + 1)).length < packetLen := by
          rw [List.length_take]
          omega
        exact read_cut_ne hshort hbytes
      rw [hstream', List.length_drop, length_read, hstream, List.length_drop]
      rw [hstream, List.length_drop] at hklen
      omega

/-- The packets that are pushed whatever the new packets contained have come as a whole. -/
lemma wireLength_callbacks_le (ev : List Event) (hev : Delivers ev) (errnoAgain : ℕ → Bool)
    (h : callbacks (fun _ _ => 1) errnoAgain ev = callbacks (fun _ _ => 0) errnoAgain ev) :
    wireLength (callbacks (fun _ _ => 0) errnoAgain ev) ≤ (stream ev).length := by
  induction hw : weight ev using Nat.strong_induction_on generalizing ev errnoAgain with
  | _ w ih =>
      rcases ev with _ | ⟨e, ev⟩
      · simp [callbacks, wireLength]
      · have hne : e :: ev ≠ [] := by simp
        obtain ⟨hdel, hle⟩ := selected_takes hev (fun _ => 0) (errnoAgain 0)
        obtain ⟨hsome, hclosed, hevents⟩ :=
          selected_rq (errnoAgain 0) (e :: ev) (fun _ => 0) fun _ => 1
        have hlt := weight_selected_lt (fun _ => 0) (errnoAgain 0) e ev
        rw [callbacks_of_ne_nil _ _ hne, callbacks_of_ne_nil _ _ hne, hclosed, hevents] at h
        rw [callbacks_of_ne_nil _ _ hne]
        let others (b : UInt8) : List (List UInt8) :=
          if (selected (fun _ => 0) (errnoAgain 0) (e :: ev)).closed then []
          else callbacks (fun _ _ => b) (fun i => errnoAgain (i + 1))
            (selected (fun _ => 0) (errnoAgain 0) (e :: ev)).events
        -- what is left, if it is read, needs no more bytes than there are
        have hrest (h : others 1 = others 0) : wireLength (others 0)
            ≤ (stream (selected (fun _ => 0) (errnoAgain 0) (e :: ev)).events).length := by
          simp only [others] at h ⊢
          split_ifs at h ⊢
          · simp [wireLength]
          · exact ih _ (hw ▸ hlt) _ hdel _ h rfl
        cases hpushed : (selected (fun _ => 0) (errnoAgain 0) (e :: ev)).pushed with
        | none =>
            have hpushed' : (selected (fun _ => 1) (errnoAgain 0) (e :: ev)).pushed = none := by
              simpa [hpushed] using hsome
            rw [hpushed, hpushed'] at h
            exact (hrest h).trans hle
        | some packet =>
            obtain ⟨packet', hpushed'⟩ := Option.isSome_iff_exists.mp
              (hsome.trans (by rw [hpushed]; rfl))
            rw [hpushed, hpushed'] at h
            obtain ⟨rfl, htail⟩ := List.cons.inj h
            have hwire := hrest htail
            have hbytes := length_of_pushed hev hpushed hpushed'
            calc wireLength (packet' :: others 0)
                = 7 + packet'.length + wireLength (others 0) := List.sum_cons
              _ ≤ (stream (e :: ev)).length := by omega

end ClickSocket

/-! ### The packets on the connection -/

/-- A packet that the packet logger replays, as it is stored. -/
structure ReplayedPacket where
  stored : List UInt8
  pos : 0 < stored.length
  lt : stored.length < 10 ^ 7

namespace ReplayedPacket

/-- The packet as it is sent, with its first byte overwritten. -/
def sent (q : ReplayedPacket) : List UInt8 := 0 :: q.stored.tail

/-- The length and the packet. -/
def message (q : ReplayedPacket) : List UInt8 := intToStringDigits q.stored.length 7 ++ q.sent

lemma length_sent (q : ReplayedPacket) : q.sent.length = q.stored.length := by
  have := q.pos
  rw [sent, List.length_cons, List.length_tail]
  omega

lemma message_eq (q : ReplayedPacket) : q.message = padDigits 7 q.stored.length ++ q.sent := by
  rw [message, intToStringDigits_eq (by decide) q.lt]

lemma length_message (q : ReplayedPacket) : q.message.length = 7 + q.stored.length := by
  rw [message_eq, List.length_append, length_padDigits, length_sent]

/-- What is sent is what is stored if and only if that begins with a zero. -/
lemma sent_eq_stored_iff (q : ReplayedPacket) : q.sent = q.stored ↔ q.stored.head? = some 0 := by
  obtain ⟨stored, hpos, -⟩ := q
  cases stored with
  | nil => simp at hpos
  | cons b bs => simp [sent, eq_comm]

end ReplayedPacket

namespace PacketLoggerServer

/-- The stored packet with the given id, if there is one that is not empty: what `getPacket` puts
together of the stored versions, in a new buffer.  That this is the overlay of the fragments up to
the version is shown with `PacketLoggerServer.overlay`, for its length with `lengthCovers_iff`, and
for the packets of the network, which are logged as whole frames, with `Network.versions_kept`. -/
def storedPacket (srt : VersionSort) (s : PacketLoggerServer) (packId : PacketId) :
    Option ReplayedPacket :=
  let r := getPacket srt s packId fun _ => 0
  if h : r.1 = true ∧ 0 < r.2.2 then
    some ⟨read r.2.1 0 r.2.2, by simpa using h.2,
      by simpa using (getPacket_length_lt srt s packId fun _ => 0).trans (by decide)⟩
  else none

/-- The stored packets of the listed ids. -/
def storedPackets (srt : VersionSort) (s : PacketLoggerServer) (packIds : List PacketId) :
    List ReplayedPacket :=
  packIds.filterMap (storedPacket srt s)

lemma map_message_sendPacket (srt : VersionSort) (s : PacketLoggerServer) (packId : PacketId) :
    (sendPacket srt s packId).map SentPacket.message
      = (storedPacket srt s packId).map ReplayedPacket.message := by
  simp only [sendPacket, storedPacket]
  split_ifs with h
  · obtain ⟨len, hlen⟩ := Nat.exists_eq_add_of_le' h.2
    have htail (packet : Mem) : (read packet 0 (len + 1)).tail = read packet 1 len := by
      rw [Nat.add_comm, read_add]
      rfl
    simp only [hlen, Option.map_some, ReplayedPacket.message, ReplayedPacket.sent, length_read,
      replayMessage, htail, Nat.add_sub_cancel]
  · rfl

/-- The stream that is written to the middlebox. -/
lemma stream_processReplayRequest (srt : VersionSort) (s : PacketLoggerServer)
    (packIds : List PacketId) :
    (processReplayRequest srt s true packIds).2.flatMap SentPacket.message
      = (storedPackets srt s packIds).flatMap ReplayedPacket.message := by
  simp only [processReplayRequest, storedPackets, if_true]
  induction packIds with
  | nil => rfl
  | cons packId packIds ih =>
      have hmessage := map_message_sendPacket srt s packId
      rw [List.filterMap_cons, List.filterMap_cons]
      cases hsend : sendPacket srt s packId <;> cases hstored : storedPacket srt s packId <;>
        simp_all

end PacketLoggerServer

namespace ClickSocket

/-- The places in the stream at which a packet begins with its length, and its end. -/
def packetStarts : List ReplayedPacket → List ℕ
  | [] => [0]
  | q :: qs => 0 :: (packetStarts qs).map (· + q.message.length)

lemma add_mem_packetStarts {q : ReplayedPacket} {qs : List ReplayedPacket} {p : ℕ} :
    p + q.message.length ∈ packetStarts (q :: qs) ↔ p ∈ packetStarts qs := by
  have hlen := q.length_message
  simp only [packetStarts, List.mem_cons, List.mem_map, Nat.add_right_cancel_iff, exists_eq_right]
  exact or_iff_right (by omega)

/-! ### One packet -/

section

variable {ev : List Event} (hev : Delivers ev) {q : ReplayedPacket} {rest : List UInt8}
  (hstream : stream ev = q.message ++ rest)

include hev hstream

/-- If the seven digits come without an interruption, the length is read. -/
lemma readPacketLen_of_quiet (hquiet : ∀ p ∈ waits ev, 7 ≤ p) (errno : Bool) :
    ∃ msg errno', readPacketLen errno ev
      = (some q.stored.length, ⟨some 7, msg, errno', advance ev 7⟩) := by
  have hlen := q.length_message
  obtain ⟨errno', hfirst⟩ := receive_eq hev errno (fun _ => 0) 0 (0 + 7)
  have htake : (stream ev).take 7 = padDigits 7 q.stored.length := by
    rw [hstream, q.message_eq, List.append_assoc, List.take_left' (length_padDigits 7 _)]
  rw [AsyncServer.receive_of_quiet hev (by rw [hstream, List.length_append]; omega) hquiet, htake,
    Nat.zero_add] at hfirst
  have hread : read (memcpy (fun _ => 0) 0 (padDigits 7 q.stored.length)) 0 7
      = padDigits 7 q.stored.length := by
    rw [read_memcpy _ _ (by simp), List.drop_zero, List.take_of_length_le (by simp)]
  refine ⟨memcpy (fun _ => 0) 0 (padDigits 7 q.stored.length), errno', ?_⟩
  simp only [readPacketLen, hfirst, hread, Option.bind_some, checkLength_padDigits q.lt q.pos]

/-- An uninterrupted packet is pushed as it was sent, and no byte behind it is read. -/
lemma callbacks_of_quiet (hquiet : ∀ p ∈ waits ev, q.message.length ≤ p) :
    ∃ ev', Delivers ev' ∧ stream ev' = rest ∧
      waits ev = (waits ev').map (· + q.message.length) ∧
      ∀ garbage errnoAgain, callbacks garbage errnoAgain ev
        = q.sent :: callbacks (fun i => garbage (i + 1)) (fun i => errnoAgain (i + 1)) ev' := by
  have hpos := q.pos
  have hlen := q.length_message
  obtain ⟨hd, hrestlen, hrestquiet⟩ := advance_first_spec hev hlen hstream hquiet
  obtain ⟨hrest, hleaves⟩ := advance_two_spec hev hlen hstream hquiet
  have hquiet₇ : ∀ p ∈ waits ev, 7 ≤ p := fun p hp =>
    (hlen ▸ Nat.le_add_right 7 _).trans (hquiet p hp)
  have hafter : stream (advance ev 7) = q.sent ++ rest := by
    rw [hd.stream_eq, hstream, q.message_eq, List.append_assoc,
      List.drop_left' (length_padDigits 7 _)]
  refine ⟨advance (advance ev 7) q.stored.length, hleaves.delivers, hrest, ?_,
    fun garbage errnoAgain => ?_⟩
  · rw [hlen]
    exact hleaves.waits_eq
  · have hne : ev ≠ [] := by
      rintro rfl
      rw [q.message_eq] at hstream
      exact List.cons_ne_nil _ _ hstream.symm
    obtain ⟨msg, errno', hread⟩ := readPacketLen_of_quiet hev hstream hquiet₇ (errnoAgain 0)
    obtain ⟨errno'', hsecond⟩ := receive_eq hd.delivers errno' (garbage 0) 0 (0 + q.stored.length)
    rw [AsyncServer.receive_of_quiet hd.delivers hrestlen hrestquiet, hafter,
      List.take_left' q.length_sent, Nat.zero_add] at hsecond
    have hpacket : read (memcpy (garbage 0) 0 q.sent) 0 q.stored.length = q.sent := by
      rw [read_memcpy _ _ (by rw [q.length_sent, Nat.zero_add]), List.drop_zero,
        List.take_of_length_le q.length_sent.le]
    obtain ⟨len, hlength⟩ := Nat.exists_eq_add_of_le' hpos
    rw [callbacks_of_ne_nil _ _ hne]
    simp only [selected, hread, hsecond, hpacket]
    simp only [hlength, Option.toList_some, Bool.false_eq_true, if_false, List.singleton_append]

end

lemma wireLength_stored (qs : List ReplayedPacket) :
    wireLength (qs.map ReplayedPacket.stored) = (qs.flatMap ReplayedPacket.message).length := by
  induction qs with
  | nil => rfl
  | cons q qs ih =>
      rw [List.flatMap_cons, List.length_append, ← ih, q.length_message]
      rfl

/-- After a read within the digits of a length that finds no data, not all packets are pushed:
what has come is lost, or the connection is closed. -/
lemma not_pushes_of_wait_digits {ev : List Event} (hev : Delivers ev) {packets : List (List UInt8)}
    (hlen : wireLength packets = (stream ev).length) {p : ℕ} (hp : p ∈ waits ev)
    (hfirst : ∀ p' ∈ waits ev, p ≤ p') (hpos : 0 < p) (hlt : p < 7) : ¬ Pushes ev packets := by
  intro h
  have hle := le_length_stream hp
  have hne : ev ≠ [] := by
    rintro rfl
    exact List.not_mem_nil hp
  have hpushes (rq : Mem) := h (fun _ => rq) fun _ => true
  simp only [callbacks_of_ne_nil _ _ hne] at hpushes
  obtain ⟨htotal, hmsg⟩ := AsyncServer.receive_of_wait hev hp hfirst (fun _ => 0) 0
    (show 0 + p < 7 by omega)
  obtain ⟨errno', hreceive⟩ := receive_eq hev true (fun _ => 0) 0 7
  obtain ⟨n, -, hdrop, hdel, -, htaken⟩ := readPacketLen_takes hev true
  have hnone : (readPacketLen true ev).1 = none := by
    simp only [readPacketLen, hreceive, htotal, hmsg, Option.bind_some]
    exact checkLength_cut (by rw [List.length_take]; omega)
  obtain rfl : n = p := by
    simp only [readPacketLen, hreceive, htotal, Nat.zero_add] at htaken
    exact (Option.some.inj htaken).symm
  rcases hread : readPacketLen true ev with ⟨l, r⟩
  rw [hread] at hnone hdrop hdel
  simp only at hnone hdrop hdel
  subst hnone
  simp only [selected, hread, Option.toList_none, List.nil_append] at hpushes
  split_ifs at hpushes
  · have hnil : wireLength packets = 0 := congrArg wireLength (hpushes fun _ => 0).symm
    omega
  · have hwire := wireLength_callbacks_le r.events hdel (fun _ => true)
      ((hpushes fun _ => 1).trans (hpushes fun _ => 0).symm)
    rw [hpushes fun _ => 0, hlen, hdrop, List.length_drop] at hwire
    omega

/-- After a read within the first packet, behind its length, that finds no data, the packet is
pushed with bytes that have not come, or the connection is closed. -/
lemma not_pushes_of_wait_packet {ev : List Event} (hev : Delivers ev) {q : ReplayedPacket}
    {rest : List UInt8} (hstream : stream ev = q.message ++ rest) {p : ℕ} (hp : p ∈ waits ev)
    (hfirst : ∀ p' ∈ waits ev, p ≤ p') (hle : 7 ≤ p) (hlt : p < q.message.length)
    {packet : List UInt8} {packets : List (List UInt8)} : ¬ Pushes ev (packet :: packets) := by
  intro h
  have hlen := q.length_message
  have hne : ev ≠ [] := by
    rintro rfl
    exact List.not_mem_nil hp
  have hpushes (rq : Mem) := h (fun _ => rq) fun _ => true
  simp only [callbacks_of_ne_nil _ _ hne] at hpushes
  have hquiet₇ : ∀ p' ∈ waits ev, 7 ≤ p' := fun p' hp' => hle.trans (hfirst p' hp')
  obtain ⟨hs, hw, hd⟩ := advance_spec hev (by rw [hstream, List.length_append]; omega) hquiet₇
  rw [hw] at hp hfirst
  obtain ⟨k, hk, rfl⟩ := List.mem_map.mp hp
  have hkfirst : ∀ k' ∈ waits (advance ev 7), k ≤ k' := fun k' hk' =>
    Nat.le_of_add_le_add_right (hfirst _ (List.mem_map.mpr ⟨k', hk', rfl⟩))
  obtain ⟨msg, errno', hread⟩ := readPacketLen_of_quiet hev hstream hquiet₇ true
  have hsecond (rq : Mem) : ∃ errno'' events,
      receiveMsgFromClient (advance ev 7) errno' rq 0 q.stored.length
        = ⟨some k, memcpy rq 0 ((stream (advance ev 7)).take k), errno'', events⟩ := by
    obtain ⟨htotal, hmsg⟩ := AsyncServer.receive_of_wait hd hk hkfirst rq 0
      (show 0 + k < q.stored.length by omega)
    obtain ⟨errno'', hreceive⟩ := receive_eq hd errno' rq 0 q.stored.length
    rw [htotal, hmsg, Nat.zero_add] at hreceive
    exact ⟨errno'', _, hreceive⟩
  obtain ⟨errno₀, events₀, h₀⟩ := hsecond fun _ => 0
  obtain ⟨errno₁, events₁, h₁⟩ := hsecond fun _ => 1
  have hpushes₀ := hpushes fun _ => 0
  have hpushes₁ := hpushes fun _ => 1
  rcases k with _ | k
  · simp [selected, hread, h₀] at hpushes₀
  · simp only [selected, hread, h₀, h₁, Option.toList_some, List.singleton_append]
      at hpushes₀ hpushes₁
    obtain ⟨hpacket₀, -⟩ := List.cons.inj hpushes₀
    obtain ⟨hpacket₁, -⟩ := List.cons.inj hpushes₁
    have hshort : ((stream (advance ev 7)).take (k + 1)).length < q.stored.length := by
      rw [List.length_take]
      omega
    exact read_cut_ne hshort (hpacket₁.trans hpacket₀.symm)

/-- After a read within the first packet that finds no data, not all packets are pushed
as they are stored. -/
lemma not_pushes_of_wait {ev : List Event} (hev : Delivers ev) {q : ReplayedPacket}
    {qs : List ReplayedPacket} (hstream : stream ev = (q :: qs).flatMap ReplayedPacket.message)
    {p : ℕ} (hp : p ∈ waits ev) (hfirst : ∀ p' ∈ waits ev, p ≤ p') (hpos : 0 < p)
    (hlt : p < q.message.length) : ¬ Pushes ev ((q :: qs).map ReplayedPacket.stored) := by
  rcases Nat.lt_or_ge p 7 with hdigits | hle
  · have hlen : wireLength ((q :: qs).map ReplayedPacket.stored) = (stream ev).length := by
      rw [wireLength_stored, hstream]
    exact not_pushes_of_wait_digits hev hlen hp hfirst hpos hdigits
  · have hstream' : stream ev = q.message ++ qs.flatMap ReplayedPacket.message := by
      rw [hstream, List.flatMap_cons]
    exact not_pushes_of_wait_packet hev hstream' hp hfirst hle hlt

/-! ### The stream of the packets -/

/-- A call pushes the first packet, and the later ones push the others. -/
lemma pushes_cons_iff {ev ev' : List Event} {sent packet : List UInt8} {packets : List (List UInt8)}
    (hcall : ∀ garbage errnoAgain, callbacks garbage errnoAgain ev
      = sent :: callbacks (fun i => garbage (i + 1)) (fun i => errnoAgain (i + 1)) ev') :
    Pushes ev (packet :: packets) ↔ sent = packet ∧ Pushes ev' packets := by
  constructor
  · intro h
    have hcons (garbage : ℕ → Mem) (errnoAgain : ℕ → Bool) := List.cons.inj
      ((hcall (fun i => garbage (i - 1)) fun i => errnoAgain (i - 1)).symm.trans (h _ _))
    exact ⟨(hcons (fun _ _ => 0) fun _ => true).1, fun garbage errnoAgain =>
      (hcons garbage errnoAgain).2⟩
  · rintro ⟨rfl, h⟩ garbage errnoAgain
    rw [hcall, h]

/-- Behind the first packet, the reads that find no data are to come between the others. -/
lemma waits_packetStarts_iff {ev ev' : List Event} (hev : Delivers ev) {q : ReplayedPacket}
    {qs : List ReplayedPacket}
    (hw : waits (awaitData ev) = (waits ev').map (· + q.message.length)) :
    (∀ p ∈ waits ev, p ∈ packetStarts (q :: qs)) ↔ ∀ p ∈ waits ev', p ∈ packetStarts qs := by
  have hwaits := mem_waits_awaitData hev
  constructor
  · intro h p hp
    have hmem : p + q.message.length ∈ waits (awaitData ev) := by
      rw [hw]
      exact List.mem_map.mpr ⟨p, hp, rfl⟩
    exact add_mem_packetStarts.mp (h _ ((hwaits _).mp hmem).1)
  · intro h p hp
    by_cases hzero : p = 0
    · simp [hzero, packetStarts]
    · have hmem := (hwaits p).mpr ⟨hp, hzero⟩
      rw [hw] at hmem
      obtain ⟨p', hp', rfl⟩ := List.mem_map.mp hmem
      exact add_mem_packetStarts.mpr (h p' hp')

/-- The packets `qs` are pushed as they are stored if and only if each of them begins with
a zero and no read within one of them finds no data. -/
lemma pushes_stored_iff (qs : List ReplayedPacket) {ev : List Event} (hev : Delivers ev)
    (hstream : stream ev = qs.flatMap ReplayedPacket.message) :
    Pushes ev (qs.map ReplayedPacket.stored) ↔
      (∀ q ∈ qs, q.stored.head? = some 0) ∧ ∀ p ∈ waits ev, p ∈ packetStarts qs := by
  induction qs generalizing ev with
  | nil =>
      have hnil : stream ev = [] := hstream
      refine iff_of_true ((pushes_awaitData_iff ev []).mp fun garbage errnoAgain => ?_)
        ⟨by simp, fun p hp => ?_⟩
      · rw [awaitData_eq_nil hev hnil, callbacks]
      · have hle := le_length_stream hp
        rw [hnil] at hle
        simpa [packetStarts] using hle
  | cons q qs ih =>
      have hlen := q.length_message
      have hev' := delivers_awaitData hev
      have hwaits := mem_waits_awaitData hev
      have hstream' : stream (awaitData ev) = (q :: qs).flatMap ReplayedPacket.message := by
        rw [stream_awaitData, hstream]
      rw [← pushes_awaitData_iff]
      by_cases hquiet : ∀ p ∈ waits (awaitData ev), q.message.length ≤ p
      · obtain ⟨ev', hdel, hrest, hw, hcall⟩ := callbacks_of_quiet hev'
          (by rw [hstream', List.flatMap_cons]) hquiet
        rw [List.map_cons, pushes_cons_iff hcall, ih hdel hrest, waits_packetStarts_iff hev hw,
          q.sent_eq_stored_iff, List.forall_mem_cons, and_assoc]
      · obtain ⟨p, hp, hlt⟩ : ∃ p ∈ waits (awaitData ev), p < q.message.length := by
          simpa using hquiet
        classical
        have hex : ∃ p, p ∈ waits (awaitData ev) := ⟨p, hp⟩
        obtain ⟨hmem, hzero⟩ := (hwaits _).mp (Nat.find_spec hex)
        have hfind := (Nat.find_min' hex hp).trans_lt hlt
        refine iff_of_false (not_pushes_of_wait hev' hstream' (Nat.find_spec hex)
          (fun p' hp' => Nat.find_min' hex hp') (Nat.pos_of_ne_zero hzero) hfind) ?_
        rintro ⟨-, h⟩
        rcases List.mem_cons.mp (h _ hmem) with hstart | hstart
        · exact hzero hstart
        · obtain ⟨p', -, hp'⟩ := List.mem_map.mp hstart
          omega

/-- If no read within a packet finds no data, the packets are pushed as they are sent. -/
lemma pushes_sent (qs : List ReplayedPacket) {ev : List Event} (hev : Delivers ev)
    (hstream : stream ev = qs.flatMap ReplayedPacket.message)
    (hwaits : ∀ p ∈ waits ev, p ∈ packetStarts qs) : Pushes ev (qs.map ReplayedPacket.sent) := by
  induction qs generalizing ev with
  | nil =>
      have hnil : stream ev = [] := hstream
      refine (pushes_awaitData_iff ev []).mp fun garbage errnoAgain => ?_
      rw [awaitData_eq_nil hev hnil, callbacks]
  | cons q qs ih =>
      have hstream' : stream (awaitData ev) = q.message ++ qs.flatMap ReplayedPacket.message := by
        rw [stream_awaitData, hstream, List.flatMap_cons]
      have hquiet : ∀ p ∈ waits (awaitData ev), q.message.length ≤ p := fun p hp => by
        obtain ⟨hmem, hzero⟩ := (mem_waits_awaitData hev p).mp hp
        rcases List.mem_cons.mp (hwaits p hmem) with hstart | hstart
        · exact absurd hstart hzero
        · obtain ⟨p', -, rfl⟩ := List.mem_map.mp hstart
          exact Nat.le_add_left ..
      obtain ⟨ev', hdel, hrest, hw, hcall⟩ :=
        callbacks_of_quiet (delivers_awaitData hev) hstream' hquiet
      rw [← pushes_awaitData_iff, List.map_cons, pushes_cons_iff hcall]
      exact ⟨rfl, ih hdel hrest ((waits_packetStarts_iff hev hw).mp hwaits)⟩

end ClickSocket

open ClickSocket PacketLoggerServer

/-- **Replayed packets at the slave.**  The stream that the packet logger writes for the
listed ids is delivered in any chunks, with any reads in between that find no data.  Then
exactly the stored packets are pushed, whatever the memory contained before, if and only
if each of them begins with a zero and no read without data comes after the first byte of
a packet with its length and before its last one. -/
theorem callbacks_eq_stored_iff (srt : VersionSort) (s : PacketLoggerServer)
    (packIds : List PacketId) {ev : List Event} (hev : Delivers ev)
    (hstream : stream ev
      = (processReplayRequest srt s true packIds).2.flatMap SentPacket.message) :
    (∀ garbage errnoAgain, callbacks garbage errnoAgain ev
        = (storedPackets srt s packIds).map ReplayedPacket.stored) ↔
      (∀ q ∈ storedPackets srt s packIds, q.stored.head? = some 0) ∧
        ∀ p ∈ waits ev, p ∈ packetStarts (storedPackets srt s packIds) :=
  pushes_stored_iff _ hev (hstream.trans (stream_processReplayRequest srt s packIds))

/-- The only version of a packet, with a fragment from its beginning. -/
lemma storedPacket_of_single (srt : VersionSort) {s : PacketLoggerServer} (wpd : WrappedPacketData)
    (hpvd : s.packetsVersions (base wpd.packetId) = some ⟨[wpd.fragment], 1⟩)
    (hversion : 1 ≤ version wpd.packetId) (hoffset : wpd.offset = 0) (hpos : 0 < wpd.data.length)
    (hlt : wpd.data.length < 10 ^ 7) :
    storedPacket srt s wpd.packetId = some ⟨wpd.data, hpos, hlt⟩ := by
  have hsort : srt.sort [wpd.fragment] = [wpd.fragment] :=
    List.perm_singleton.mp (srt.perm [wpd.fragment])
  have hused : usedVersions srt ⟨[wpd.fragment], 1⟩ (version wpd.packetId) = [wpd.fragment] := by
    rw [usedVersions, hsort]
    refine List.take_of_length_le ?_
    change 1 ≤ if version wpd.packetId < 1 then version wpd.packetId else 1
    rw [if_neg (by omega)]
  have hget : getPacket srt s wpd.packetId (fun _ => 0)
      = (true, memcpy (fun _ => 0) 0 wpd.data, wpd.data.length) := by
    rw [getPacket, hpvd]
    simp only [hused]
    simp [copyVersion, WrappedPacketData.fragment, hoffset, wpd.length_data]
  have hread : read (memcpy (fun _ => 0) 0 wpd.data) 0 wpd.data.length = wpd.data :=
    read_memcpy_self _ 0 wpd.data
  simp [storedPacket, hget, hread, hpos]

/-- A logged packet of two bytes. -/
def twoBytes : WrappedPacketData := ⟨33, 0, 2, [0, 7], rfl⟩

/-- A logged packet of three bytes. -/
def threeBytes : WrappedPacketData := ⟨65, 0, 3, [0, 8, 9], rfl⟩

/-- Both packets are logged. -/
def twoLogged : PacketLoggerServer :=
  (new.processStoreRequest twoBytes).processStoreRequest threeBytes

lemma storedPackets_twoLogged (srt : VersionSort) :
    storedPackets srt twoLogged [33, 65]
      = [⟨[0, 7], by decide, by decide⟩, ⟨[0, 8, 9], by decide, by decide⟩] := by
  have hfirst := storedPacket_of_single srt (s := twoLogged) twoBytes rfl (by decide) rfl
    (by decide) (by decide)
  have hsecond := storedPacket_of_single srt (s := twoLogged) threeBytes rfl (by decide) rfl
    (by decide) (by decide)
  exact (List.filterMap_cons_some hfirst).trans
    (congrArg (_ :: ·) (List.filterMap_cons_some hsecond))

/-- The first packet arrives in two parts, then a read finds no data, and then the second packet
arrives in two parts. -/
theorem callbacks_two_packets :
    ∃ ev, stream ev = (processReplayRequest .stable twoLogged true [33, 65]).2.flatMap
        SentPacket.message ∧ waits ev = [9] ∧
      callbacks (fun _ _ => 1) (fun _ => false) ev = [[0, 7], [0, 8, 9]] := by
  let first : ReplayedPacket := ⟨[0, 7], by decide, by decide⟩
  let second : ReplayedPacket := ⟨[0, 8, 9], by decide, by decide⟩
  have hstored : storedPackets .stable twoLogged [33, 65] = [first, second] :=
    storedPackets_twoLogged .stable
  let ev := pushBack (first.message.take 3) (pushBack (first.message.drop 3) (.again ::
    pushBack (second.message.take 8) (pushBack (second.message.drop 8) [])))
  have hev : Delivers ev := delivers_pushBack (delivers_pushBack (List.forall_mem_cons.mpr
    ⟨by decide, delivers_pushBack (delivers_pushBack (by simp [Delivers]))⟩))
  have hstream : stream ev
      = (processReplayRequest .stable twoLogged true [33, 65]).2.flatMap SentPacket.message := by
    rw [stream_processReplayRequest, hstored]
    decide
  have hwaits : waits ev = [9] := by decide
  have hpushed := (callbacks_eq_stored_iff .stable twoLogged [33, 65] hev hstream).mpr
    (by rw [hstored, hwaits]; decide) (fun _ _ => 1) fun _ => false
  rw [hstored] at hpushed
  exact ⟨ev, hstream, hwaits, hpushed⟩

/-- The length of the packet arrives, then a read finds no data, then the packet arrives:
it is not pushed. -/
theorem not_callbacks_eq_stored :
    ¬ ∀ (srt : VersionSort) (s : PacketLoggerServer) (packIds : List PacketId) (ev : List Event),
      Delivers ev →
      stream ev = (processReplayRequest srt s true packIds).2.flatMap SentPacket.message →
      ∀ garbage errnoAgain, callbacks garbage errnoAgain ev
        = (storedPackets srt s packIds).map ReplayedPacket.stored := by
  intro h
  let q : ReplayedPacket := ⟨[0, 7], by decide, by decide⟩
  have hstored : storedPackets .stable (new.processStoreRequest twoBytes) [33] = [q] :=
    List.filterMap_cons_some (storedPacket_of_single .stable twoBytes rfl (by decide) rfl
      (by decide) (by decide))
  let ev := pushBack (q.message.take 7) (.again :: pushBack (q.message.drop 7) [])
  have hlen : q.message.length = 9 := q.length_message
  have hev : Delivers ev := by
    refine delivers_pushBack fun e he => ?_
    rcases List.mem_cons.mp he with rfl | he
    · simp
    · exact delivers_pushBack (by simp [Delivers]) e he
  have hstream : stream ev = [q].flatMap ReplayedPacket.message := by
    simp [ev, stream]
  have hwaits : waits ev = [7] := by
    simp [ev, waits, hlen]
  refine not_pushes_of_wait hev hstream (p := 7) (by simp [hwaits]) (by simp [hwaits]) (by decide)
    (by omega) fun garbage errnoAgain => ?_
  have hpushed := h .stable (new.processStoreRequest twoBytes) [33] ev hev
    (by rw [stream_processReplayRequest, hstored, hstream]) garbage errnoAgain
  rwa [hstored] at hpushed

end FtThesis
