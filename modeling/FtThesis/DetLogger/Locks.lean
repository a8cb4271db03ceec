/-
The locks of the determinant logger.

A request acquires the two locks of the maps, those of the lists and those of the records, some of
them while it holds others.  The lock of a record is freed with the record.

* `DetLock`, `DetLock.rank`: the locks, and the order in which they are acquired;
* `DetTrace`, `DetTrace.locks`: what a request meets on its way, and what it does to the locks;
* `above_locks`: it keeps the order;
* `requests_end`: requests on any number of threads do not block each other, and all of them end if
  none has still to lock a record that is freed before.
-/
import FtThesis.DetLogger.Server
import FtThesis.Library.Locks

namespace FtThesis

open Transition

/-- The locks of the determinant logger: those of the two maps, that of the list of a middlebox,
and that of the record at an address, where each record has an address of its own, also after others
are freed. -/
inductive DetLock
  | progressDataMtx
  | spd (mbId : MbId)
  | detDataMtx
  | packetData (address : ℕ)
deriving DecidableEq

/-- The order in which the locks are acquired. -/
def DetLock.rank : DetLock → ℕ
  | progressDataMtx => 0
  | spd _ => 1
  | detDataMtx => 2
  | packetData _ => 3

/-- A request with what it meets on its way: the address of its record, whether there is a list of
its middlebox, the records that it frees, and the records and lists that are printed. -/
inductive DetTrace
  | store (mbId : MbId) (packetData : ℕ) (records : List ℕ) (lists : List MbId)
  | getProcessed (mbId : MbId) (found : Bool)
  | getPals (packetData : Option ℕ)
  | deleteFirst (mbId : MbId) (found : Bool) (freed records : List ℕ) (lists : List MbId)

namespace DetTrace

/-- `freePacketData`: the record goes, and its lock with it. -/
def freePacketData (packetData : ℕ) : List (LockOp DetLock) :=
  locked (.packetData packetData) [] ++ [.destroy (.packetData packetData)]

/-- `printProgressDataState`, and the list of the partial state. -/
def printProgressDataState (lists : List MbId) : List (LockOp DetLock) :=
  locked .progressDataMtx (lists.flatMap fun mbId => locked (.spd mbId) [])

/-- `printState`. -/
def printState (records : List ℕ) (lists : List MbId) : List (LockOp DetLock) :=
  locked .detDataMtx (records.flatMap fun address => locked (.packetData address) []) ++
    printProgressDataState lists

/-- What the requests do to the locks, with the flag `DEBUG`. -/
def locks (debug : Bool) : DetTrace → List (LockOp DetLock)
  | store mbId packetData records lists =>
      locked .detDataMtx [] ++ locked (.packetData packetData) [] ++ locked .progressDataMtx [] ++
        locked (.spd mbId) [] ++
        if debug then printState records lists else printProgressDataState lists
  | getProcessed mbId found =>
      locked .progressDataMtx [] ++ if found then locked (.spd mbId) [] else []
  | getPals packetData =>
      locked .detDataMtx [] ++
        match packetData with
        | none => []
        | some address => locked (.packetData address) []
  | deleteFirst mbId found freed records lists =>
      locked .progressDataMtx [] ++
        (if found then
          locked (.spd mbId) (locked .detDataMtx (freed.flatMap freePacketData))
        else []) ++
        if debug then printState records lists else []

/-! ### The order -/

/-- The locks of records are acquired one by one under that of their map. -/
lemma above_underDetData {n : ℕ} (hn : n ≤ 2) {records : List ℕ} {part : ℕ → List (LockOp DetLock)}
    (hpart : ∀ address, Above DetLock.rank 3 (part address)) :
    Above DetLock.rank n (locked .detDataMtx (records.flatMap part)) := by
  have hrecords : Above DetLock.rank (DetLock.detDataMtx.rank + 1) (records.flatMap part) :=
    above_flatMap fun address _ => hpart address
  exact hrecords.locked hn

lemma above_freePacketData (packetData : ℕ) :
    Above DetLock.rank 3 (freePacketData packetData) := by
  have hlock : Above DetLock.rank 3 (locked (.packetData packetData) []) := above_locked_nil le_rfl
  exact hlock.append (above_destroy le_rfl)

lemma above_printProgressDataState (lists : List MbId) :
    Above DetLock.rank 0 (printProgressDataState lists) := by
  have hlists : Above DetLock.rank (DetLock.progressDataMtx.rank + 1)
      (lists.flatMap fun mbId => locked (.spd mbId) []) :=
    above_flatMap fun _ _ => above_locked_nil le_rfl
  exact hlists.locked le_rfl

lemma above_printState (records : List ℕ) (lists : List MbId) :
    Above DetLock.rank 0 (printState records lists) :=
  (above_underDetData (Nat.zero_le _) fun _ => above_locked_nil le_rfl).append
    (above_printProgressDataState lists)

/-- Each request acquires its locks in the order of their ranks. -/
lemma above_locks (debug : Bool) (request : DetTrace) :
    Above DetLock.rank 0 (request.locks debug) := by
  have hfree : ∀ l : DetLock, Above DetLock.rank 0 (locked l []) := fun l =>
    above_locked_nil (Nat.zero_le _)
  cases request with
  | store mbId packetData records lists =>
      refine ((((hfree _).append (hfree _)).append (hfree _)).append (hfree _)).append ?_
      cases debug with
      | false => exact above_printProgressDataState lists
      | true => exact above_printState records lists
  | getProcessed mbId found =>
      refine (hfree _).append ?_
      cases found with
      | false => exact above_nil
      | true => exact hfree _
  | getPals packetData =>
      refine (hfree _).append ?_
      cases packetData with
      | none => exact above_nil
      | some address => exact hfree _
  | deleteFirst mbId found freed records lists =>
      refine ((hfree _).append ?_).append ?_
      · cases found with
        | false => exact above_nil
        | true =>
            have hfreed : Above DetLock.rank ((DetLock.spd mbId).rank + 1)
                (locked .detDataMtx (freed.flatMap freePacketData)) :=
              above_underDetData le_rfl above_freePacketData
            exact hfreed.locked (Nat.zero_le _)
      · cases debug with
        | false => exact above_nil
        | true => exact above_printState records lists

end DetTrace

/-! ### Requests on several threads -/

/-- **No request waits for ever.**  For any requests on any number of threads, whatever these have
done so far without coming to the lock of a freed record: if a thread has not ended, one of them can
go on, or is about to lock a record that is freed, or to free one that is locked.  If no thread has
still to lock a record that is freed, or that is to be freed before, they can go on until all
requests have ended, after as many operations on locks as the requests have. -/
theorem DetLoggerServer.requests_end {ι : Type*} [Fintype ι] [DecidableEq ι] (debug : Bool)
    (requests : ι → List DetTrace) {as : List ι} {s : Locking ι DetLock}
    (h : Run (Fires Locking.step)
      (Locking.start fun i => (requests i).flatMap (DetTrace.locks debug)) as s) :
    ((∃ i, s.programs i ≠ []) → ∃ i, (s.step i).isSome ∨ s.Strays i) ∧
      (s.Careful → ∃ bs t, Run (Fires Locking.step) s bs t ∧ (∀ i, t.programs i = []) ∧
        (as ++ bs).length = ∑ i, ((requests i).flatMap (DetTrace.locks debug)).length) :=
  Locking.run_ordered (fun _ => above_flatMap fun request _ => DetTrace.above_locks debug request) h

/-- A store on one thread, and on another one a deletion that frees the record of an earlier
packet. -/
def storeAndDelete (i : Fin 2) : List (LockOp DetLock) :=
  (![[.store 1 5 [] [1]], [.deleteFirst 1 true [4] [] []]] i).flatMap (DetTrace.locks false)

/-- The store has looked up its record, then the other record is freed, and then the store locks its
own. -/
theorem DetLoggerServer.requests_end_two : ∃ s : Locking (Fin 2) DetLock,
    Run (Fires Locking.step) (Locking.start storeAndDelete) [0, 0, 1, 1, 1, 1, 1, 1, 1, 0] s ∧
      s.destroyed (.packetData 4) = true ∧
      ((∃ i, s.programs i ≠ []) → ∃ i, (s.step i).isSome ∨ s.Strays i) ∧
      ∃ bs t, Run (Fires Locking.step) s bs t ∧ (∀ i, t.programs i = []) ∧
        ([0, 0, 1, 1, 1, 1, 1, 1, 1, 0] ++ bs : List (Fin 2)).length =
          ∑ i, (storeAndDelete i).length := by
  obtain ⟨s, hs, hgone, hcareful⟩ : ∃ s,
      Run (Fires Locking.step) (Locking.start storeAndDelete) [0, 0, 1, 1, 1, 1, 1, 1, 1, 0] s ∧
        s.destroyed (.packetData 4) = true ∧ s.Careful :=
    ⟨_, .of_foldlM rfl, by decide +kernel, by decide +kernel⟩
  obtain ⟨hstep, hend⟩ := DetLoggerServer.requests_end false
    ![[.store 1 5 [] [1]], [.deleteFirst 1 true [4] [] []]] hs
  exact ⟨s, hs, hgone, hstep, hend hcareful⟩

end FtThesis
