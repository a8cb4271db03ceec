/-
Are the requests that a client writes the ones that are handed over?

* `requestStarts`: where the requests of a stream begin, and where it ends;
* `handleClientRequest_of_quiet`: a request that is not interrupted is handed over,
  and nothing of what follows is read;
* `handleClientRequest_of_wait`: a request within which a read finds no data is
  handed over wrongly, for some contents of the buffer;
* `serve_eq_requests_iff`: for a whole stream;
* `serve_ne_requests`: a stream that is not handed over as it was written.
-/
import FtThesis.Transport.AsyncServer

namespace FtThesis

open Memory Socket Decimals

namespace AsyncServer

/-- A request as it is to be handed over. -/
def dispatchOf (r : Request) : Dispatch := (some r.command, r.payload)

/-- The places in the stream of the requests at which a request begins, and its
end. -/
def requestStarts : List Request → List ℕ
  | [] => [0]
  | r :: rs => 0 :: (requestStarts rs).map (· + r.bytes.length)

/-- The header of a request, in a buffer that has its first eight bytes. -/
lemma checkLength_header (r : Request) (msg : Mem) (bs : List UInt8) (hlen : 8 ≤ bs.length)
    (hbs : bs.take 8 = r.bytes.take 8) :
    checkLength (read (memcpy msg 0 bs) 0 7) 1 = some r.payload.length ∧
      checkLength (read (memcpy msg 0 bs) 7 1) 0 = some r.command := by
  have htake : bs.take 7 = r.bytes.take 7 := by
    have h := congrArg (List.take 7) hbs
    rwa [List.take_take, List.take_take] at h
  have hdrop : (bs.drop 7).take 1 = (r.bytes.drop 7).take 1 := by
    have h := congrArg (List.drop 7) hbs
    rwa [List.drop_take, List.drop_take] at h
  rw [read_memcpy msg bs (by omega), read_memcpy msg bs (by omega), List.drop_zero, htake, hdrop]
  exact ⟨checkLength_length r.command_le r.payload_lt r.payload_pos,
    checkLength_code r.command_le r.payload_lt⟩

/-! ### A header that is cut off -/

/-- A command other than that of the request. -/
def otherCommand (r : Request) : ℕ := (r.command + 1) % 10

lemma otherCommand_ne (r : Request) : otherCommand r ≠ r.command := by
  have := r.command_le
  rw [otherCommand]
  omega

/-- A buffer with ones, and with another command at its place. -/
def garbledHeader (r : Request) : Mem :=
  fun q => if q = 7 then UInt8.ofNat (48 + otherCommand r % 10) else 49

section

variable (r : Request) {p : ℕ}

lemma garbledHeader_of_le {q : ℕ} (h : p ≤ q) :
    memcpy (garbledHeader r) 0 (r.bytes.take p) q = garbledHeader r q :=
  memcpy_of_lt (.inr (by rw [List.length_take]; omega))

lemma command_of_cut_header (hp : p < 8) :
    checkLength (read (memcpy (garbledHeader r) 0 (r.bytes.take p)) 7 1) 0
      = some (otherCommand r) := by
  have hread : read (memcpy (garbledHeader r) 0 (r.bytes.take p)) 7 1
      = padDigits 1 (otherCommand r) := by
    simp [Memory.read, garbledHeader_of_le r (show p ≤ 7 by omega), garbledHeader, padDigits]
  rw [hread]
  exact checkLength_padDigits (by rw [otherCommand]; omega) (Nat.zero_le _)

/-- The length field consists of true digits up to `p` and of ones behind. -/
lemma isDigit_of_cut_header {q : ℕ} (hq : q < 7) :
    isDigit (memcpy (garbledHeader r) 0 (r.bytes.take p) q) = true := by
  have hlen := r.length_bytes
  by_cases hqp : p ≤ q
  · rw [garbledHeader_of_le r hqp, garbledHeader, if_neg (by omega)]
    rfl
  · have hlt : q < (r.bytes.take p).length := by
      rw [List.length_take]
      omega
    have hcopy := memcpy_getElem (m := garbledHeader r) (p := 0) hlt
    have hdigits : r.bytes.take 7 = padDigits 7 r.payload.length := by
      rw [Request.bytes, message_eq r.command_le r.payload_lt,
        List.take_left' (length_padDigits 7 _)]
    rw [Nat.zero_add] at hcopy
    rw [hcopy, List.getElem_take]
    refine isDigit_of_mem_padDigits (n := 7) (v := r.payload.length) ?_
    rw [← hdigits, List.mem_take_iff_getElem]
    exact ⟨q, by omega, rfl⟩

lemma length_of_cut_header (hp : p < 8) :
    ∃ l, checkLength (read (memcpy (garbledHeader r) 0 (r.bytes.take p)) 0 7) 1 = some l := by
  have hlen := r.length_bytes
  by_cases hp7 : p = 7
  · refine ⟨r.payload.length, ?_⟩
    rw [hp7, read_memcpy _ _ (by rw [List.length_take]; omega), List.drop_zero, List.take_take,
      min_self]
    exact checkLength_length r.command_le r.payload_lt r.payload_pos
  · set m := memcpy (garbledHeader r) 0 (r.bytes.take p) with hm
    have hread : read m 0 7 = read m 0 6 ++ [49] := by
      simp [Memory.read, List.range_succ, hm, garbledHeader_of_le r (show p ≤ 6 by omega),
        garbledHeader]
    have hall : ∀ b ∈ read m 0 7, isDigit b = true := by
      intro b hb
      obtain ⟨q, hq, rfl⟩ := List.mem_map.mp hb
      rw [Nat.zero_add]
      exact isDigit_of_cut_header r (List.mem_range.mp hq)
    refine ⟨atoi (read m 0 7), ?_⟩
    rw [checkLength, if_pos (List.all_eq_true.mpr hall), if_neg]
    rw [hread] at hall ⊢
    rw [atoi_concat hall]
    simp

end

/-! ### One request -/

section

variable {ev : List Event} (hev : Delivers ev) {r : Request} {rest : List UInt8}
  (hstream : stream ev = r.bytes ++ rest)

include hev hstream

/-- If the header comes without an interruption, the payload is read behind it. -/
lemma readCommonClientRequest_of_header (hquiet : ∀ p ∈ waits ev, 8 ≤ p) (msg : Mem) :
    readCommonClientRequest ev msg =
      let received := receiveMsgFromClient (advance ev 8) (memcpy msg 0 (r.bytes.take 8)) 8
        (8 + r.payload.length)
      ⟨some r.payload.length, some r.command, received.msg,
        received.totalReceivedBytes.isNone, received.events⟩ := by
  have hlen := r.length_bytes
  have htake : (stream ev).take 8 = r.bytes.take 8 := by
    rw [hstream, List.take_append_of_le_length (by omega)]
  have hfirst := receive_of_quiet hev (k := 8) (by rw [hstream, List.length_append]; omega)
    hquiet msg 0
  obtain ⟨hmsgLen, hcommand⟩ := checkLength_header r msg (r.bytes.take 8)
    (by rw [List.length_take]; omega) (List.take_take.trans (by rw [min_self]))
  rw [htake, Nat.zero_add] at hfirst
  simp only [readCommonClientRequest, hfirst, hmsgLen, hcommand, Option.elim_some]
  rw [Nat.add_comm 8]

/-- An uninterrupted request is read as a whole, and no byte behind it. -/
lemma readCommonClientRequest_of_quiet (hquiet : ∀ p ∈ waits ev, r.bytes.length ≤ p) (msg : Mem) :
    readCommonClientRequest ev msg = ⟨some r.payload.length, some r.command,
      memcpy msg 0 r.bytes, false, advance (advance ev 8) r.payload.length⟩ := by
  obtain ⟨-, hpayload⟩ :=
    readsData_receiveMsgFromClient.two_loops hev r.length_bytes hstream hquiet msg
  have hquiet₈ : ∀ p ∈ waits ev, 8 ≤ p := fun p hp =>
    (r.length_bytes ▸ Nat.le_add_right 8 _).trans (hquiet p hp)
  rw [readCommonClientRequest_of_header hev hstream hquiet₈, hpayload]
  rfl

/-- An uninterrupted request is handed over, and no byte behind it is read. -/
lemma handleClientRequest_of_quiet (hquiet : ∀ p ∈ waits ev, r.bytes.length ≤ p) (msg : Mem) :
    handleClientRequest msg ev
      = (some (dispatchOf r), false, advance (advance ev 8) r.payload.length) := by
  have hlen := r.length_bytes
  have hread : read (memcpy msg 0 r.bytes) 8 r.payload.length = r.payload :=
    read_payload r.command_le r.payload_lt msg
  simp [handleClientRequest, readCommonClientRequest_of_quiet hev hstream hquiet, hread,
    dispatchOf]

/-- A request within which a read finds no data is handed over wrongly, for some
contents of the buffer: with another command if its header is cut off, and else with
a wrong byte in its payload. -/
lemma handleClientRequest_of_wait {p : ℕ} (hp : p ∈ waits ev) (hfirst : ∀ q ∈ waits ev, p ≤ q)
    (hlt : p < r.bytes.length) :
    ∃ msg, (handleClientRequest msg ev).1.isSome = true ∧
      (handleClientRequest msg ev).1 ≠ some (dispatchOf r) := by
  have hlen := r.length_bytes
  by_cases hp8 : p < 8
  · obtain ⟨htotal, hmsg⟩ := receive_of_wait hev hp hfirst (garbledHeader r) 0
      (show 0 + p < 8 by omega)
    have htake : (stream ev).take p = r.bytes.take p := by
      rw [hstream, List.take_append_of_le_length (by omega)]
    obtain ⟨l, hl⟩ := length_of_cut_header r hp8
    have hmsgLen : (readCommonClientRequest ev (garbledHeader r)).msgLen = some l := by
      simp only [readCommonClientRequest, htotal, hmsg, htake, hl]
    have hcommand : (readCommonClientRequest ev (garbledHeader r)).command
        = some (otherCommand r) := by
      simp only [readCommonClientRequest, htotal, hmsg, htake, command_of_cut_header r hp8]
    refine ⟨garbledHeader r, ?_, fun h => ?_⟩
    · simp [handleClientRequest, hmsgLen]
    · simp only [handleClientRequest, hmsgLen, hcommand, Option.map_some, dispatchOf,
        Option.some.injEq, Prod.mk.injEq] at h
      exact otherCommand_ne r h.1
  · have hquiet₈ : ∀ q ∈ waits ev, 8 ≤ q := fun q hq => (Nat.not_lt.mp hp8).trans (hfirst q hq)
    obtain ⟨hs, hw, hd⟩ := advance_spec hev
      (show 8 ≤ (stream ev).length by rw [hstream, List.length_append]; omega) hquiet₈
    rw [hw] at hp hfirst
    obtain ⟨q, hq, rfl⟩ := List.mem_map.mp hp
    have hget : q < r.payload.length := by omega
    let msg : Mem := fun _ => r.payload[q] + 1
    obtain ⟨-, hmsg⟩ := receive_of_wait hd hq
      (fun q' hq' => Nat.le_of_add_le_add_right (hfirst _ (List.mem_map.mpr ⟨q', hq', rfl⟩)))
      (memcpy msg 0 (r.bytes.take 8)) 8 (show 8 + q < 8 + r.payload.length by omega)
    have hbyte : memcpy (memcpy msg 0 (r.bytes.take 8)) 8 ((stream (advance ev 8)).take q) (8 + q)
        = r.payload[q] + 1 := by
      rw [memcpy_of_lt (.inr (by rw [List.length_take]; omega)),
        memcpy_of_lt (.inr (by rw [List.length_take]; omega))]
    refine ⟨msg, ?_, fun h => ?_⟩
    · rw [handleClientRequest, readCommonClientRequest_of_header hev hstream hquiet₈]
      rfl
    · rw [handleClientRequest, readCommonClientRequest_of_header hev hstream hquiet₈] at h
      simp only [hmsg, Option.map_some, dispatchOf, Option.some.injEq, Prod.mk.injEq] at h
      have hpayload := congrArg (·[q]?) h.2
      simp [Memory.read, hbyte, hget] at hpayload

end

/-! ### The stream of the requests -/

lemma serve_of_nil (garbage : ℕ → Mem) {ev : List Event} (h : awaitData ev = []) :
    serve garbage ev = [] := by
  rw [serve]
  split
  · rfl
  · simp_all

lemma serve_of_ne_nil (garbage : ℕ → Mem) {ev : List Event} (h : awaitData ev ≠ []) :
    serve garbage ev =
      (handleClientRequest (garbage 0) (awaitData ev)).1.toList ++
        if (handleClientRequest (garbage 0) (awaitData ev)).2.1 then []
        else serve (fun i => garbage (i + 1))
          (handleClientRequest (garbage 0) (awaitData ev)).2.2 := by
  rw [serve]
  split
  · simp_all
  · simp_all

lemma requestStarts_ge {r : Request} {rs : List Request} {p : ℕ}
    (h : p ∈ requestStarts (r :: rs)) : p = 0 ∨ r.bytes.length ≤ p := by
  rcases List.mem_cons.mp h with h | h
  · exact .inl h
  · obtain ⟨q, -, rfl⟩ := List.mem_map.mp h
    exact .inr (Nat.le_add_left _ _)

lemma add_mem_requestStarts {r : Request} {rs : List Request} {p : ℕ} :
    p + r.bytes.length ∈ requestStarts (r :: rs) ↔ p ∈ requestStarts rs := by
  have hlen := r.length_bytes
  simp only [requestStarts, List.mem_cons, List.mem_map, Nat.add_right_cancel_iff, exists_eq_right]
  constructor
  · rintro (h | h)
    · omega
    · exact h
  · exact .inr

/-- If a read within the first request finds no data, the stream is handed over wrongly
for some contents of the buffers. -/
lemma serve_ne_of_wait {ev : List Event} (hev : Delivers ev) {r : Request} {rs : List Request}
    (hstream : stream ev = (r :: rs).flatMap Request.bytes) {p : ℕ} (hp : p ∈ waits ev)
    (hpos : p ≠ 0) (hlt : p < r.bytes.length) :
    ∃ garbage, serve garbage ev ≠ (r :: rs).map dispatchOf := by
  have hlen := r.length_bytes
  have hstream' : stream (awaitData ev) = r.bytes ++ rs.flatMap Request.bytes := by
    rw [stream_awaitData, hstream, List.flatMap_cons]
  have hne : awaitData ev ≠ [] := by
    intro h
    have hnil : r.bytes ++ rs.flatMap Request.bytes = [] := by rw [← hstream', h]; rfl
    have hzero := congrArg List.length hnil
    rw [List.length_append, hlen] at hzero
    simp at hzero
  have hex : ∃ q, q ∈ waits (awaitData ev) := ⟨p, (mem_waits_awaitData hev p).mpr ⟨hp, hpos⟩⟩
  classical
  have hmin := Nat.find_min' hex ((mem_waits_awaitData hev p).mpr ⟨hp, hpos⟩)
  obtain ⟨msg, hsome, hwrong⟩ := handleClientRequest_of_wait (delivers_awaitData hev) hstream'
    (Nat.find_spec hex) (fun q hq => Nat.find_min' hex hq) (hmin.trans_lt hlt)
  refine ⟨fun _ => msg, fun h => ?_⟩
  obtain ⟨d, hd⟩ := Option.isSome_iff_exists.mp hsome
  rw [serve_of_ne_nil _ hne, hd, List.map_cons] at h
  rw [hd] at hwrong
  exact hwrong (congrArg some (List.cons.inj h).1)

/-- If no read within the first request finds no data, it is handed over, and the rest
of the stream is left. -/
lemma serve_of_quiet {ev : List Event} (hev : Delivers ev) {r : Request} {rs : List Request}
    (hstream : stream ev = (r :: rs).flatMap Request.bytes)
    (hquiet : ∀ p ∈ waits ev, p = 0 ∨ r.bytes.length ≤ p) :
    ∃ ev', Delivers ev' ∧ stream ev' = rs.flatMap Request.bytes ∧
      (∀ p, p ≠ 0 → (p ∈ waits ev ↔ ∃ q ∈ waits ev', q + r.bytes.length = p)) ∧
      ∀ garbage, serve garbage ev = dispatchOf r :: serve (fun i => garbage (i + 1)) ev' := by
  have hlen := r.length_bytes
  have hstream' : stream (awaitData ev) = r.bytes ++ rs.flatMap Request.bytes := by
    rw [stream_awaitData, hstream, List.flatMap_cons]
  have hstreamlen : r.bytes.length ≤ (stream (awaitData ev)).length := by
    rw [hstream', List.length_append]
    omega
  have hne : awaitData ev ≠ [] := by
    intro h
    rw [h] at hstreamlen
    simp only [stream, List.length_nil] at hstreamlen
    omega
  have hquiet' : ∀ p ∈ waits (awaitData ev), r.bytes.length ≤ p := fun p hp => by
    have hp' := (mem_waits_awaitData hev p).mp hp
    exact (hquiet p hp'.1).resolve_left hp'.2
  obtain ⟨hrest, hleaves⟩ := advance_two_spec (delivers_awaitData hev) hlen hstream' hquiet'
  refine ⟨_, hleaves.delivers, hrest, fun p hpos => ?_, fun garbage => ?_⟩
  · rw [← and_iff_left (a := p ∈ waits ev) hpos, ← mem_waits_awaitData hev, hleaves.waits_eq,
      List.mem_map, hlen]
  · rw [serve_of_ne_nil _ hne,
      handleClientRequest_of_quiet (delivers_awaitData hev) hstream' hquiet']
    rfl

end AsyncServer

open AsyncServer

/-- **Framing of the asynchronous server.**  When the stream of any requests is
delivered in any chunks, with any reads in between that find no data, exactly these
requests are handed over, whatever the buffers contained before, if and only if no
such read comes after the first byte of a request and before its last one. -/
theorem serve_eq_requests_iff (rs : List Request) {ev : List Event} (hev : Delivers ev)
    (hstream : stream ev = rs.flatMap Request.bytes) :
    (∀ garbage, serve garbage ev = rs.map dispatchOf) ↔ ∀ p ∈ waits ev, p ∈ requestStarts rs := by
  induction rs generalizing ev with
  | nil =>
      have hnil : stream ev = [] := hstream
      refine iff_of_true (fun garbage => serve_of_nil _ (awaitData_eq_nil hev hnil)) fun p hp => ?_
      have hle := le_length_stream hp
      rw [hnil] at hle
      simpa [requestStarts] using hle
  | cons r rs ih =>
      by_cases hquiet : ∀ p ∈ waits ev, p = 0 ∨ r.bytes.length ≤ p
      · obtain ⟨ev', hev', hstream', hwaits, hserve⟩ := serve_of_quiet hev hstream hquiet
        have hrest : (∀ garbage, serve garbage ev = (r :: rs).map dispatchOf) ↔
            ∀ garbage, serve garbage ev' = rs.map dispatchOf := by
          constructor
          · intro h garbage
            have hg := h fun i => garbage (i - 1)
            rw [hserve, List.map_cons] at hg
            exact (List.cons.inj hg).2
          · intro h garbage
            rw [hserve, h, List.map_cons]
        rw [hrest, ih hev' hstream']
        constructor
        · intro h p hp
          by_cases hpos : p = 0
          · simp [hpos, requestStarts]
          · obtain ⟨q, hq, rfl⟩ := (hwaits p hpos).mp hp
            exact add_mem_requestStarts.mpr (h q hq)
        · intro h q hq
          have hlen := r.length_bytes
          have hp := (hwaits (q + r.bytes.length) (by omega)).mpr ⟨q, hq, rfl⟩
          exact add_mem_requestStarts.mp (h _ hp)
      · obtain ⟨p, hp, hbad⟩ : ∃ p ∈ waits ev, ¬ (p = 0 ∨ r.bytes.length ≤ p) := by
          simpa using hquiet
        refine iff_of_false (fun h => ?_) fun h => hbad (requestStarts_ge (h p hp))
        obtain ⟨garbage, hne⟩ := serve_ne_of_wait hev hstream hp (by omega) (by omega)
        exact hne (h garbage)

/-- A request with one byte. -/
def oneByteRequest : Request := ⟨0, [7], by decide, by decide, by decide⟩

/-- A request with two bytes. -/
def twoByteRequest : Request := ⟨1, [8, 9], by decide, by decide, by decide⟩

/-- Two requests that arrive in two parts each, with a read in between that finds no data. -/
theorem serve_two_requests :
    serve (fun _ _ => 0) (pushBack (oneByteRequest.bytes.take 3) (pushBack
        (oneByteRequest.bytes.drop 3) (.again :: pushBack (twoByteRequest.bytes.take 8) (pushBack
          (twoByteRequest.bytes.drop 8) []))))
      = [dispatchOf oneByteRequest, dispatchOf twoByteRequest] := by
  refine (serve_eq_requests_iff [oneByteRequest, twoByteRequest] ?_ ?_).mpr ?_ _
  · exact delivers_pushBack (delivers_pushBack (List.forall_mem_cons.mpr ⟨by decide,
      delivers_pushBack (delivers_pushBack (by simp [Delivers]))⟩))
  · decide
  · decide

/-- The header of the request arrives, then a read finds no data, then the payload
arrives: what is handed over is not the request. -/
theorem serve_ne_requests :
    ¬ ∀ (rs : List Request) (ev : List Event), Delivers ev →
      stream ev = rs.flatMap Request.bytes →
      ∀ garbage, serve garbage ev = rs.map dispatchOf := by
  intro h
  let ev := pushBack (oneByteRequest.bytes.take 8)
    (.again :: pushBack (oneByteRequest.bytes.drop 8) [])
  have hlen : oneByteRequest.bytes.length = 9 := oneByteRequest.length_bytes
  have hev : Delivers ev := by
    refine delivers_pushBack fun e he => ?_
    rcases List.mem_cons.mp he with rfl | he
    · simp
    · exact delivers_pushBack (by simp [Delivers]) e he
  have hstream : stream ev = [oneByteRequest].flatMap Request.bytes := by
    simp [ev, stream]
  have hwait : 8 ∈ waits ev := by
    simp [ev, waits, hlen]
  obtain ⟨garbage, hne⟩ := serve_ne_of_wait hev hstream hwait (by decide) (by omega)
  exact hne (h _ ev hev hstream garbage)

end FtThesis
