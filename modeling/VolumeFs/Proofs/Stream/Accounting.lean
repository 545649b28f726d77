import VolumeFs.Proofs.Store.Fronts
import VolumeFs.Proofs.Store.Traced
import VolumeFs.Proofs.Stream.WriteCall

/-!
# What a write stream has committed

A stream on a store whose calls may fail. However it is called, the bytes that it counts as
committed are the first bytes that it was handed and stand at the front of the file. The first
failure is the end of its writes and flushes, and the descriptor is given back once.
-/

namespace VolumeFs

open Bytes

namespace Exchange

/-- The bytes of a write that the store took as a whole. -/
def taken? : Exchange → Option ByteArray
  | write _ bytes _ (.ok count) => if count = bytes.size then some bytes else none
  | _ => none

def isFailedWrite : Exchange → Bool
  | write _ bytes _ (.ok count) => count != bytes.size
  | write _ _ _ (.error _) => true
  | _ => false

def isFailedFlush : Exchange → Bool
  | flush _ (.error _) => true
  | _ => false

def isFailure (e : Exchange) : Bool := e.isFailedWrite || e.isFailedFlush

def isWork (fd : Fd) : Exchange → Bool
  | write other _ _ _ => other = fd
  | flush other _ => other = fd
  | _ => false

def isClose (fd : Fd) : Exchange → Bool
  | close other _ => other = fd
  | _ => false

variable {bytes : ByteArray} {answer : Except Errno Nat}

private theorem write_of_ne (fd : Fd) (offset : Nat) (h : answer ≠ .ok bytes.size) :
    (write fd bytes offset answer).taken? = none ∧
      (write fd bytes offset answer).isFailedWrite = true := by
  cases answer with
  | error code => exact ⟨rfl, rfl⟩
  | ok count =>
    have hcount : count ≠ bytes.size := fun hc => h (hc ▸ rfl)
    exact ⟨if_neg hcount, by simpa [isFailedWrite] using hcount⟩

end Exchange

/-- The pieces that the store took, in the order of the writes. -/
def takenPieces (exchanges : List Exchange) : List ByteArray :=
  exchanges.filterMap Exchange.taken?

theorem takenPieces_concat (exchanges : List Exchange) (e : Exchange) :
    takenPieces (exchanges ++ [e]) = takenPieces exchanges ++ e.taken?.toList := by
  rw [takenPieces, List.filterMap_append]
  cases h : e.taken? <;> simp [takenPieces, h]

/-- The first cause of a failure, without what happened when it was cleaned up after. -/
def VolumeError.primary : VolumeError → VolumeError
  | .cleanupFailed e _ => e.primary
  | e => e

/-- A call on a write stream, which may be closed already. -/
inductive StreamCall where
  | byte (byte : UInt8)
  | bytes (bytes : ByteArray)
  | flush
  | close
  deriving DecidableEq

namespace StreamCall

variable {σ : Type} [StoreClient σ]

def handed : StreamCall → ByteArray
  | byte b => ⟨#[b]⟩
  | bytes bs => bs
  | flush => .empty
  | close => .empty

def on (w : Writer) (s : σ) : StreamCall → Except VolumeError Unit × Writer × σ
  | byte b => w.writeByte s b
  | bytes bs => w.writeBytes s bs
  | flush => w.flush s
  | close => w.close s

def after (w : Writer) (s : σ) (calls : List StreamCall) : Writer × σ :=
  calls.foldl (fun p call => (call.on p.1 p.2).2) (w, s)

/-- All bytes that calls hand over, whatever their answers. -/
def handedBy (calls : List StreamCall) : ByteArray := joined (calls.map handed)

end StreamCall

section Accounting

variable {σ : Type} {handle : Handle} {fd : Fd} {holds : ByteArray → σ → Prop}
  {pieces : List ByteArray} {handed : ByteArray} {w w' : Writer} {t t' : Traced σ}

/-- What the store took and what is in the buffer, in this order. -/
def Writer.accepted (w : Writer) (t : Traced σ) : ByteArray :=
  joined (takenPieces t.exchanges) ++ w.buffer

/-- Every write through the descriptor was taken as a whole, and every flush has succeeded. -/
structure Steady (fd : Fd) (holds : ByteArray → σ → Prop) (pieces : List ByteArray)
    (t : Traced σ) : Prop where
  taken : takenPieces t.exchanges = pieces
  work : ∀ e ∈ t.exchanges, e.isWork fd = true ∧ e.isFailure = false
  holds : holds (joined pieces) t.store

/-- What is true of a stream and its store at any time. -/
structure Accounted (handle : Handle) (holds : ByteArray → σ → Prop) (handed : ByteArray)
    (w : Writer) (t : Traced σ) : Prop where
  path : w.path = handle.path
  front : ∃ held, holds held t.store ∧ w.commitOffset ≤ held.size ∧
    w.commitOffset ≤ handed.size ∧
    held.extract 0 w.commitOffset = handed.extract 0 w.commitOffset
  offset : w.commitOffset = total (takenPieces t.exchanges)
  atRest : t.exchanges.Pairwise fun earlier later =>
    earlier.isFailure = true → later.isWork handle.fd = false

/-- Nothing has failed so far. -/
structure Intact (handle : Handle) (holds : ByteArray → σ → Prop) (handed : ByteArray)
    (w : Writer) (t : Traced σ) : Prop where
  sound : w.IsSound handle
  path : w.path = handle.path
  size_buffer : w.buffer.size < w.capacity
  steady : Steady handle.fd holds (takenPieces t.exchanges) t
  offset : w.commitOffset = total (takenPieces t.exchanges)
  bytes : w.accepted t = handed

/-- Where a stream stands, and whether it is closed. -/
inductive Stands (handle : Handle) (holds : ByteArray → σ → Prop) (handed : ByteArray) :
    Bool → Writer → Traced σ → Prop where
  | intact {w : Writer} {t : Traced σ} (h : Intact handle holds handed w t) :
      Stands handle holds handed false w t
  | stuck {w : Writer} {t : Traced σ} (hw : w.IsStuck handle)
      (haccounted : Accounted handle holds handed w t)
      (hwork : ∀ e ∈ t.exchanges, e.isWork handle.fd = true)
      (hlost : (∃ e ∈ t.exchanges, e.isFailedWrite = true) → w.buffer.size ≠ 0) :
      Stands handle holds handed false w t
  | closed {w : Writer} {t : Traced σ} {work answer} (hw : w.isClosed = true)
      (haccounted : Accounted handle holds handed w t)
      (hexchanges : t.exchanges = work ++ [.close handle.fd answer])
      (hwork : ∀ e ∈ work, e.isWork handle.fd = true) : Stands handle holds handed true w t

/-- The pieces that were taken are the front of what was handed over, and of the file. -/
theorem exists_front (rest : ByteArray) (hbytes : joined pieces ++ rest = handed)
    {held : ByteArray} {s : σ} (hheld : holds held s)
    (hfront : held.extract 0 (total pieces) = joined pieces) :
    ∃ held, holds held s ∧ total pieces ≤ held.size ∧ total pieces ≤ handed.size ∧
      held.extract 0 (total pieces) = handed.extract 0 (total pieces) := by
  have hsize := congrArg ByteArray.size hfront
  rw [ByteArray.size_extract, size_joined] at hsize
  refine ⟨held, hheld, by omega, ?_, ?_⟩
  · rw [← hbytes, ByteArray.size_append, size_joined]
    omega
  · rw [hfront, ← hbytes, ← size_joined, ByteArray.extract_append_eq_left rfl]

theorem Accounted.handed_append (h : Accounted handle holds handed w t) (more : ByteArray) :
    Accounted handle holds (handed ++ more) w t := by
  obtain ⟨held, hheld, hsize, hsize', hfront⟩ := h.front
  refine ⟨h.path, ⟨held, hheld, hsize, ?_, ?_⟩, h.offset, h.atRest⟩
  · rw [ByteArray.size_append]
    omega
  · have hnone : more.extract (0 - handed.size) (w.commitOffset - handed.size) = .empty := by
      rw [Nat.sub_eq_zero_of_le hsize', Nat.zero_sub, ByteArray.extract_same]
    rw [hfront, ByteArray.extract_append, hnone, ByteArray.append_empty]

theorem Steady.pairwise_concat (h : Steady fd holds pieces t) (e : Exchange) :
    (t.exchanges ++ [e]).Pairwise fun earlier later =>
      earlier.isFailure = true → later.isWork fd = false := by
  have hcalm {e : Exchange} (he : e ∈ t.exchanges) : e.isFailure ≠ true := by
    rw [(h.work e he).2]
    exact Bool.false_ne_true
  rw [List.pairwise_append]
  exact ⟨List.pairwise_of_forall_mem_list fun e he _ _ hfailure => absurd hfailure (hcalm he),
    List.pairwise_singleton _ _, fun e he _ _ hfailure => absurd hfailure (hcalm he)⟩

private theorem Intact.accounted (h : Intact handle holds handed w t) :
    Accounted handle holds handed w t := by
  refine ⟨h.path, ?_, h.offset, ?_⟩
  · rw [h.offset]
    exact exists_front _ h.bytes h.steady.holds (by rw [← size_joined, ByteArray.extract_zero_size])
  · exact (List.pairwise_append.1 (h.steady.pairwise_concat (.flush handle.fd (.ok ())))).1

private theorem Stands.accounted {closed : Bool} (h : Stands handle holds handed closed w t) :
    Accounted handle holds handed w t := by
  cases h with
  | intact h => exact h.accounted
  | stuck hw haccounted => exact haccounted
  | closed hw haccounted => exact haccounted

private theorem Stands.open (h : Stands handle holds handed false w t) : w.handle = some handle ∧
    w.isClosed = false ∧ ∀ e ∈ t.exchanges, e.isWork handle.fd = true := by
  cases h with
  | intact h => exact ⟨h.sound.handle, h.sound.isClosed, fun e he => (h.steady.work e he).1⟩
  | stuck hw _ hwork => exact ⟨hw.handle, hw.isClosed, hwork⟩

private theorem Stands.exchanges {closed : Bool} (h : Stands handle holds handed closed w t) :
    (∀ e ∈ t.exchanges, e.isWork handle.fd = true ∨ e.isClose handle.fd = true) ∧
      t.exchanges.countP (Exchange.isClose handle.fd) = if closed then 1 else 0 := by
  have hnone {work : List Exchange} (hwork : ∀ e ∈ work, e.isWork handle.fd = true) :
      work.countP (Exchange.isClose handle.fd) = 0 := by
    rw [List.countP_eq_zero]
    intro e he hclose
    have hworks := hwork e he
    cases e <;> simp [Exchange.isWork, Exchange.isClose] at hworks hclose
  cases closed with
  | false =>
    obtain ⟨-, -, hwork⟩ := h.open
    exact ⟨fun e he => .inl (hwork e he), hnone hwork⟩
  | true =>
    cases h with
    | closed _ _ hexchanges hwork =>
      rw [hexchanges]
      refine ⟨fun e he => ?_, ?_⟩
      · rcases List.mem_append.1 he with he | he
        · exact .inl (hwork e he)
        · rw [List.mem_singleton.1 he]
          exact .inr (decide_eq_true rfl)
      · rw [List.countP_append, hnone hwork]
        simp [Exchange.isClose]

private theorem Stands.refuses {closed : Bool} (h : Stands handle holds handed closed w t)
    (hend : closed = true ∨ ∃ e ∈ t.exchanges, e.isFailure = true) :
    w.checkWritable = .error (if closed then .streamClosed handle.path
      else .streamBroken handle.path) := by
  rw [← h.accounted.path]
  cases h with
  | intact h =>
    obtain hclosed | ⟨e, he, hfailure⟩ := hend
    · cases hclosed
    · rw [(h.steady.work e he).2] at hfailure
      cases hfailure
  | stuck hw => exact hw.checkWritable
  | closed hw =>
    rw [Writer.checkWritable, hw]
    rfl

variable [StoreClient σ]

private theorem Writer.accepted_commit (w : Writer) (t : Traced σ) :
    (w.commit t).2.1.accepted (w.commit t).2.2 = w.accepted t := by
  unfold Writer.commit
  split
  · rfl
  · split
    · rfl
    · rename_i handle _
      split
      · rename_i count t' hwrite
        obtain ⟨s', -, rfl⟩ := Traced.write_eq_iff.1 hwrite
        split
        · rename_i hcount
          simp [Writer.accepted, takenPieces_concat, Exchange.taken?, hcount]
        · rename_i hcount
          simp [Writer.accepted, takenPieces_concat, Exchange.taken?, hcount]
      · rename_i code t' hwrite
        obtain ⟨s', -, rfl⟩ := Traced.write_eq_iff.1 hwrite
        simp [Writer.accepted, takenPieces_concat, Exchange.taken?]

private theorem Writer.accepted_fill (w : Writer) (t : Traced σ) (bytes : ByteArray) :
    ∃ rest, (w.fill t bytes).2.1.accepted (w.fill t bytes).2.2 ++ rest =
      w.accepted t ++ bytes := by
  -- Each round moves the front of the bytes into the buffer, whether its commit fails or not.
  have hround (w : Writer) (t : Traced σ) (front : ByteArray) :
      let result := { w with buffer := w.buffer ++ front }.commitIfFull t
      result.2.1.accepted result.2.2 = w.accepted t ++ front := by
    intro result
    have hfull : ({ w with buffer := w.buffer ++ front }).accepted t = w.accepted t ++ front := by
      simp [Writer.accepted, ByteArray.append_assoc]
    simp only [result, Writer.commitIfFull]
    split
    · rw [Writer.accepted_commit, hfull]
    · exact hfull
  fun_induction Writer.fill w t bytes with
  | case1 w t bytes => exact ⟨bytes, rfl⟩
  | case2 w t bytes count hcount e w' t' hfull =>
    have hmoved := hround w t (bytes.extract 0 count)
    simp only [hfull] at hmoved
    refine ⟨bytes.extract count bytes.size, ?_⟩
    rw [hmoved, ByteArray.append_assoc, extract_append_extract_size bytes (by omega)]
  | case3 w t bytes count hcount w' t' hfull ih =>
    have hmoved := hround w t (bytes.extract 0 count)
    simp only [hfull] at hmoved
    obtain ⟨rest, hrest⟩ := ih
    refine ⟨rest, ?_⟩
    rw [hrest, hmoved, ByteArray.append_assoc, extract_append_extract_size bytes (by omega)]

theorem TakesFronts.ledger (h : TakesFronts fd holds) :
    Writer.Ledger fd fun pieces s => holds (joined pieces) s where
  write := by
    intro pieces s s' piece hs _ hwrite
    have hheld := (h.write_ok hs hwrite).2
    rwa [ByteArray.extract_zero_size, ← size_joined, overlay_padded_size,
      ← joined_singleton piece, ← joined_append] at hheld
  flush := by
    intro pieces s s' hs hflush
    have hheld := h.flush hs
    rwa [hflush] at hheld

omit [StoreClient σ] in
private theorem Steady.concat (h : Steady fd holds pieces t) {new : List ByteArray} {e : Exchange}
    {s : σ} (htaken : e.taken?.toList = new) (hwork : e.isWork fd = true ∧ e.isFailure = false)
    (hs : holds (joined (pieces ++ new)) s) :
    Steady fd holds (pieces ++ new) ⟨s, t.exchanges ++ [e]⟩ where
  taken := by rw [takenPieces_concat, h.taken, htaken]
  work other hother := by
    rcases List.mem_append.1 hother with hother | hother
    · exact h.work other hother
    · rwa [List.mem_singleton.1 hother]
  holds := hs

private theorem ledger_steady (hstore : TakesFronts fd holds) :
    Writer.Ledger fd (Steady fd holds) where
  write := by
    intro pieces t t' piece h hsize hwrite
    obtain ⟨s', hwrite', rfl⟩ := Traced.write_eq_iff.1 hwrite
    apply h.concat
    · simp [Exchange.taken?]
    · simp [Exchange.isWork, Exchange.isFailure, Exchange.isFailedWrite, Exchange.isFailedFlush]
    · exact hstore.ledger.write h.holds hsize hwrite'
  flush := by
    intro pieces t t' h hflush
    obtain ⟨s', hflush', rfl⟩ := Traced.flush_eq_iff.1 hflush
    rw [← List.append_nil pieces]
    apply h.concat
    · rfl
    · simp [Exchange.isWork, Exchange.isFailure, Exchange.isFailedWrite, Exchange.isFailedFlush]
    · rw [List.append_nil]
      exact hstore.ledger.flush h.holds hflush'

private theorem Steady.holds_of_writeFails (h : Steady fd holds pieces t)
    (hstore : TakesFronts fd holds) {piece : ByteArray}
    (hwrite : Writer.WriteFails fd piece (total pieces) t t') :
    (∃ e, t'.exchanges = t.exchanges ++ [e] ∧ e.taken? = none ∧ e.isWork fd = true) ∧
    ∃ held, holds held t'.store ∧ held.extract 0 (total pieces) = joined pieces := by
  obtain ⟨answer, hwrite, hne⟩ := hwrite
  obtain ⟨s', hwrite', rfl⟩ := Traced.write_eq_iff.1 hwrite
  obtain ⟨htaken, hfailed⟩ := Exchange.write_of_ne fd (total pieces) hne
  have hend : total pieces ≤ (joined pieces).size := by simp
  obtain ⟨held, hheld, hfront⟩ := hstore.exists_of_write h.holds hend piece
  rw [hwrite'] at hheld
  refine ⟨⟨_, rfl, htaken, by simp [Exchange.isWork]⟩, held, hheld, ?_⟩
  rw [hfront, ← size_joined, ByteArray.extract_zero_size]

private theorem stands_of_writeFails {t₁ : Traced σ} (rest : ByteArray)
    (hstore : TakesFronts handle.fd holds) (hsteady : Steady handle.fd holds pieces t₁)
    (hw : w.IsStuck handle) (hpath : w.path = handle.path) (hoffset : w.commitOffset = total pieces)
    (hsize : w.buffer.size ≠ 0)
    (hwrite : Writer.WriteFails handle.fd w.buffer (total pieces) t₁ t)
    (hbytes : w.accepted t ++ rest = handed) : Stands handle holds handed false w t := by
  obtain ⟨⟨e, hexchanges, htaken, hwork⟩, held, hheld, hfront⟩ :=
    hsteady.holds_of_writeFails hstore hwrite
  have hpieces : takenPieces t.exchanges = pieces := by
    rw [hexchanges, takenPieces_concat, htaken, hsteady.taken]
    simp
  refine .stuck hw ⟨hpath, ?_, by rw [hoffset, hpieces], ?_⟩ ?_ fun _ => hsize
  · rw [hoffset]
    refine exists_front (w.buffer ++ rest) ?_ hheld hfront
    rw [← hbytes, Writer.accepted, hpieces, ByteArray.append_assoc]
  · rw [hexchanges]
    exact hsteady.pairwise_concat e
  · intro e' he'
    rw [hexchanges] at he'
    rcases List.mem_append.1 he' with he' | he'
    · exact (hsteady.work e' he').1
    · rw [List.mem_singleton.1 he']
      exact hwork

private theorem stands_of_flush_error {t₁ : Traced σ} {code : Errno}
    (hstore : TakesFronts handle.fd holds) (hsteady : Steady handle.fd holds pieces t₁)
    (hw : w.IsStuck handle) (hpath : w.path = handle.path) (hoffset : w.commitOffset = total pieces)
    (hflush : StoreClient.flush t₁ handle.fd = (.error code, t))
    (hbytes : joined pieces = handed) : Stands handle holds handed false w t := by
  obtain ⟨s', hflush', rfl⟩ := Traced.flush_eq_iff.1 hflush
  have hpieces : takenPieces (t₁.exchanges ++ [.flush handle.fd (.error code)]) = pieces := by
    rw [takenPieces_concat, hsteady.taken]
    simp [Exchange.taken?]
  have hheld := hstore.flush hsteady.holds
  rw [hflush'] at hheld
  have hall : ∀ e ∈ t₁.exchanges ++ [.flush handle.fd (.error code)],
      e.isWork handle.fd = true ∧ e.isFailedWrite = false := by
    intro e he
    rcases List.mem_append.1 he with he | he
    · obtain ⟨hwork, hcalm⟩ := hsteady.work e he
      exact ⟨hwork, (Bool.or_eq_false_iff.1 hcalm).1⟩
    · rw [List.mem_singleton.1 he]
      simp [Exchange.isWork, Exchange.isFailedWrite]
  refine .stuck hw ⟨hpath, ?_, by rw [hoffset, hpieces], hsteady.pairwise_concat _⟩
    (fun e he => (hall e he).1) ?_
  · rw [hoffset]
    refine exists_front .empty (by rw [ByteArray.append_empty, hbytes]) hheld ?_
    rw [← size_joined, ByteArray.extract_zero_size]
  · rintro ⟨e, he, hfailed⟩
    rw [(hall e he).2] at hfailed
    cases hfailed

private theorem Intact.writeBytes (h : Intact handle holds handed w t)
    (hstore : TakesFronts handle.fd holds) (bytes : ByteArray) :
    Stands handle holds (handed ++ bytes) false (w.writeBytes t bytes).2.1
      (w.writeBytes t bytes).2.2 := by
  have hw := h.sound
  have hfilling := Writer.filling_writeBytes hw (ledger_steady hstore) h.size_buffer h.steady
    h.offset bytes
  obtain ⟨rest, hrest⟩ := w.accepted_fill t bytes
  have hfill : w.writeBytes t bytes = w.fill t bytes := by
    rw [Writer.writeBytes, hw.checkWritable]
  rw [hfill] at hfilling ⊢
  rw [h.bytes] at hrest
  generalize w.fill t bytes = result at hfilling hrest
  cases hfilling with
  | @done new last t' hnew hlast hjoined hs' =>
    have hpieces := hs'.taken
    refine .intact ⟨⟨hw.handle, hw.isClosed, hw.isBroken⟩, h.path, hlast, hpieces ▸ hs', ?_, ?_⟩
    · rw [hpieces]
    · rw [Writer.accepted, hpieces, joined_append, ByteArray.append_assoc, hjoined,
        ← ByteArray.append_assoc, ← h.bytes]
      rfl
  | broken hs' hpiece hwrite =>
    exact stands_of_writeFails _ hstore hs' ⟨hw.handle, hw.isClosed, rfl⟩ h.path rfl hpiece hwrite
      hrest

private theorem Intact.commitAndFlush (h : Intact handle holds handed w t)
    (hstore : TakesFronts handle.fd holds) :
    Stands handle holds handed false (w.commitAndFlush t).2.1 (w.commitAndFlush t).2.2 := by
  have hw := h.sound
  have hflushing :=
    Writer.flushing_commitAndFlush hw.handle (ledger_steady hstore) h.steady h.offset
  have hjoined : joined (takenPieces t.exchanges ++ remainder w.buffer) = handed := by
    rw [joined_append, joined_remainder]
    exact h.bytes
  have hcapacity : 0 < w.capacity := Nat.lt_of_le_of_lt (Nat.zero_le _) h.size_buffer
  generalize w.commitAndFlush t = result at hflushing
  cases hflushing with
  | done hs' =>
    have hpieces := hs'.taken
    refine .intact ⟨⟨hw.handle, hw.isClosed, hw.isBroken⟩, h.path, hcapacity, hpieces ▸ hs', ?_, ?_⟩
    · rw [hpieces]
    · rw [Writer.accepted, hpieces, ByteArray.append_empty, hjoined]
  | notDurable hs' hflush =>
    exact stands_of_flush_error hstore hs' ⟨hw.handle, hw.isClosed, rfl⟩ h.path rfl hflush hjoined
  | @notCommitted e t' hne hwrite =>
    have hpieces : takenPieces t'.exchanges = takenPieces t.exchanges := by
      obtain ⟨⟨e, hexchanges, htaken, -⟩, -⟩ := h.steady.holds_of_writeFails hstore hwrite
      rw [hexchanges, takenPieces_concat, htaken]
      simp
    refine stands_of_writeFails .empty hstore h.steady ⟨hw.handle, hw.isClosed, rfl⟩
      h.path h.offset hne hwrite ?_
    rw [ByteArray.append_empty, Writer.accepted, hpieces]
    exact h.bytes

private theorem Stands.settle (h : Stands handle holds handed false w t)
    (hstore : TakesFronts handle.fd holds) :
    Stands handle holds handed false (w.settle t).2.1 (w.settle t).2.2 := by
  cases h with
  | intact h =>
    rw [Writer.settle, h.sound.isBroken]
    exact h.commitAndFlush hstore
  | stuck hw haccounted hwork hlost =>
    have hsame : (w.settle t).2 = (w, t) := by
      rw [Writer.settle, hw.isBroken]
      simp only [Bool.not_true, Bool.false_eq_true, if_false]
      split <;> rfl
    rw [hsame]
    exact .stuck hw haccounted hwork hlost

private theorem Stands.release (h : Stands handle holds handed false w t)
    (hstore : TakesFronts handle.fd holds) :
    Stands handle holds handed true (w.release t).2.1 (w.release t).2.2 := by
  obtain ⟨hhandle, -, hwork⟩ := h.open
  obtain ⟨hpath, ⟨held, hheld, hfront⟩, hoffset, hrest⟩ := h.accounted
  generalize hanswer : (StoreClient.close t handle.fd).1 = answer
  obtain ⟨s', hclose, ht'⟩ := Traced.close_eq_iff.1
    (show StoreClient.close t handle.fd = (answer, (StoreClient.close t handle.fd).2) from
      Prod.ext hanswer rfl)
  have hresult : (w.release t).2 = ({ w with buffer := .empty, isClosed := true, handle := none },
      ⟨s', t.exchanges ++ [.close handle.fd answer]⟩) := by
    simp only [Writer.release, hhandle, Handle.close]
    rw [← ht']
    rcases StoreClient.close t handle.fd with ⟨_ | _, _⟩ <;> rfl
  rw [hresult]
  have hheld' := hstore.close hheld
  rw [hclose] at hheld'
  refine .closed rfl ⟨hpath, ⟨held, hheld', hfront⟩, ?_, ?_⟩ rfl hwork
  · simp [takenPieces_concat, Exchange.taken?, hoffset]
  · rw [List.pairwise_append]
    refine ⟨hrest, List.pairwise_singleton _ _, fun e _ e' he' _ => ?_⟩
    rw [List.mem_singleton.1 he']
    rfl

private theorem Stands.close (h : Stands handle holds handed false w t)
    (hstore : TakesFronts handle.fd holds) :
    Stands handle holds handed true (w.close t).2.1 (w.close t).2.2 := by
  rw [Writer.close, h.open.2.1]
  exact (h.settle hstore).release hstore

private theorem StreamCall.on_of_checkWritable {e : VolumeError} (h : w.checkWritable = .error e)
    {call : StreamCall} (hcall : call ≠ .close) : call.on w t = (.error e, w, t) := by
  cases call with
  | byte b => rw [StreamCall.on, Writer.writeByte, h]
  | bytes bs => rw [StreamCall.on, Writer.writeBytes, h]
  | flush => rw [StreamCall.on, Writer.flush, h]
  | close => exact absurd rfl hcall

private theorem Writer.close_of_isClosed (h : w.isClosed = true) (t : Traced σ) :
    w.close t = (.ok (), w, t) := by
  rw [Writer.close, h]
  rfl

private theorem Stands.call {closed : Bool} (h : Stands handle holds handed closed w t)
    (hstore : TakesFronts handle.fd holds) (call : StreamCall) :
    Stands handle holds (handed ++ call.handed) (closed || call = .close) (call.on w t).2.1
      (call.on w t).2.2 := by
  have hempty : handed ++ ByteArray.empty = handed := ByteArray.append_empty
  cases h with
  | intact h =>
    cases call with
    | byte b =>
      rw [StreamCall.on, Writer.writeByte_eq_writeBytes h.size_buffer]
      exact h.writeBytes hstore _
    | bytes bs => exact h.writeBytes hstore bs
    | flush =>
      rw [StreamCall.on, Writer.flush, h.sound.checkWritable, StreamCall.handed, hempty]
      exact h.commitAndFlush hstore
    | close =>
      rw [StreamCall.handed, hempty]
      exact (Stands.intact h).close hstore
  | stuck hw haccounted hwork hlost =>
    by_cases hcall : call = .close
    · subst hcall
      rw [StreamCall.handed, hempty]
      exact (Stands.stuck hw haccounted hwork hlost).close hstore
    · rw [StreamCall.on_of_checkWritable hw.checkWritable hcall, decide_eq_false hcall]
      exact .stuck hw (haccounted.handed_append _) hwork hlost
  | closed hw haccounted hexchanges hwork =>
    have hsame : (call.on w t).2 = (w, t) := by
      by_cases hcall : call = .close
      · rw [hcall, StreamCall.on, Writer.close_of_isClosed hw]
      · have hclosed : w.checkWritable = .error (.streamClosed w.path) := by
          rw [Writer.checkWritable, hw]
          rfl
        rw [StreamCall.on_of_checkWritable hclosed hcall]
    rw [hsame, Bool.true_or]
    exact .closed hw (haccounted.handed_append _) hexchanges hwork

private theorem Stands.after {closed : Bool} (h : Stands handle holds handed closed w t)
    (hstore : TakesFronts handle.fd holds) (calls : List StreamCall) :
    Stands handle holds (handed ++ StreamCall.handedBy calls) (closed || decide (.close ∈ calls))
      (StreamCall.after w t calls).1 (StreamCall.after w t calls).2 := by
  induction calls generalizing handed closed w t with
  | nil =>
    have hnone : StreamCall.handedBy [] = .empty := rfl
    rw [hnone, ByteArray.append_empty, decide_eq_false List.not_mem_nil, Bool.or_false]
    exact h
  | cons call calls ih =>
    have hrest := ih (h.call hstore call)
    have hhanded : handed ++ StreamCall.handedBy (call :: calls) =
        handed ++ call.handed ++ StreamCall.handedBy calls := by
      rw [ByteArray.append_assoc]
      rfl
    have hclosed : (closed || decide (StreamCall.close ∈ call :: calls)) =
        (closed || decide (call = .close) || decide (.close ∈ calls)) := by
      simp [Bool.or_assoc, eq_comm]
    rw [hhanded, hclosed]
    exact hrest

private theorem Writer.commitOffset_le_commit (w : Writer) (s : σ) :
    w.commitOffset ≤ (w.commit s).2.1.commitOffset := by
  unfold Writer.commit
  repeat' split
  all_goals simp

private theorem Writer.commitOffset_le_fill (w : Writer) (s : σ) (bytes : ByteArray) :
    w.commitOffset ≤ (w.fill s bytes).2.1.commitOffset := by
  have hround (w : Writer) (s : σ) (buffer : ByteArray) :
      w.commitOffset ≤ ({ w with buffer }.commitIfFull s).2.1.commitOffset := by
    simp only [Writer.commitIfFull]
    split
    · exact Writer.commitOffset_le_commit { w with buffer } s
    · exact Nat.le_refl _
  fun_induction Writer.fill w s bytes with
  | case1 w s bytes => exact Nat.le_refl _
  | case2 w s bytes count hcount e w' s' hfull =>
    have hfirst := hround w s (w.buffer ++ bytes.extract 0 count)
    rwa [hfull] at hfirst
  | case3 w s bytes count hcount w' s' hfull ih =>
    have hfirst := hround w s (w.buffer ++ bytes.extract 0 count)
    rw [hfull] at hfirst
    exact Nat.le_trans hfirst ih

private theorem Writer.commitOffset_le_commitAndFlush (w : Writer) (s : σ) :
    w.commitOffset ≤ (w.commitAndFlush s).2.1.commitOffset := by
  have hcommit := w.commitOffset_le_commit s
  unfold Writer.commitAndFlush
  split
  · rename_i hresult
    rwa [hresult] at hcommit
  · rename_i hresult
    rw [hresult] at hcommit
    repeat' split
    all_goals exact hcommit

private theorem Writer.commitOffset_le_close (w : Writer) (s : σ) :
    w.commitOffset ≤ (w.close s).2.1.commitOffset := by
  have hrelease (w : Writer) (s : σ) : (w.release s).2.1.commitOffset = w.commitOffset := by
    unfold Writer.release
    repeat' split
    all_goals rfl
  unfold Writer.close
  split
  · exact Nat.le_refl _
  · show w.commitOffset ≤ ((w.settle s).2.1.release (w.settle s).2.2).2.1.commitOffset
    rw [hrelease, Writer.settle]
    repeat' split
    · exact w.commitOffset_le_commitAndFlush s
    · exact Nat.le_refl _
    · exact Nat.le_refl _

private theorem StreamCall.commitOffset_le (w : Writer) (s : σ) (call : StreamCall) :
    w.commitOffset ≤ (call.on w s).2.1.commitOffset := by
  cases call with
  | byte b =>
    rw [StreamCall.on, Writer.writeByte]
    split
    · exact Nat.le_refl _
    · rw [Writer.commitIfFull]
      split
      · exact Writer.commitOffset_le_commit { w with buffer := w.buffer.push b } s
      · exact Nat.le_refl _
  | bytes bs =>
    rw [StreamCall.on, Writer.writeBytes]
    split
    · exact Nat.le_refl _
    · exact w.commitOffset_le_fill s bs
  | flush =>
    rw [StreamCall.on, Writer.flush]
    split
    · exact Nat.le_refl _
    · exact w.commitOffset_le_commitAndFlush s
  | close => exact w.commitOffset_le_close s

private theorem Stands.close_of_failedWrite (h : Stands handle holds handed false w t)
    (hfailed : ∃ e ∈ t.exchanges, e.isFailedWrite = true) :
    ∃ e, (w.close t).1 = .error e ∧ e.primary = .streamBroken handle.path := by
  rw [← h.accounted.path]
  cases h with
  | intact h =>
    obtain ⟨e, he, hfailed⟩ := hfailed
    have hcalm := (h.steady.work e he).2
    rw [Exchange.isFailure, hfailed] at hcalm
    cases hcalm
  | stuck hw _ _ hlost =>
    have hsettle : w.settle t = (.error (.streamBroken w.path), w, t) := by
      rw [Writer.settle, hw.isBroken, if_neg (by simp), if_pos (hlost hfailed)]
    have hclose : (w.close t).1 =
        VolumeError.combine (.error (.streamBroken w.path)) (w.release t).1 := by
      rw [Writer.close, hw.isClosed, if_neg Bool.false_ne_true, hsettle]
    rw [hclose]
    cases (w.release t).1 with
    | ok => exact ⟨_, rfl, rfl⟩
    | error e => exact ⟨_, rfl, rfl⟩

/-- However the calls of the store end, the bytes that a stream counts as committed are the front
of what it was handed and of the file, and come from the writes that the store took as a whole.
After a failure the store is asked for no more writes or flushes, and the stream refuses all calls
but the close. That one reports bytes that were lost, and gives the descriptor back once. -/
theorem write_stream_of_calls (handle : Handle) (hstore : TakesFronts handle.fd holds) {s : σ}
    (hs : holds .empty s) (bufferSize : Nat) (calls : List StreamCall) :
    let w := (StreamCall.after (.new handle 0 bufferSize) (Traced.mk s []) calls).1
    let t := (StreamCall.after (.new handle 0 bufferSize) (Traced.mk s []) calls).2
    (∃ held, holds held t.store ∧ w.commitOffset ≤ held.size ∧
      w.commitOffset ≤ (StreamCall.handedBy calls).size ∧
      held.extract 0 w.commitOffset = (StreamCall.handedBy calls).extract 0 w.commitOffset) ∧
    w.commitOffset = total (takenPieces t.exchanges) ∧
    (∀ call : StreamCall, w.commitOffset ≤ (call.on w t).2.1.commitOffset) ∧
    (t.exchanges.Pairwise fun earlier later =>
      earlier.isFailure = true → later.isWork handle.fd = false) ∧
    (∀ call : StreamCall, call ≠ .close →
      .close ∈ calls ∨ (∃ e ∈ t.exchanges, e.isFailure = true) →
      call.on w t = (.error (if .close ∈ calls then .streamClosed handle.path
        else .streamBroken handle.path), w, t)) ∧
    (.close ∉ calls → (∃ e ∈ t.exchanges, e.isFailedWrite = true) →
      ∃ e, (w.close t).1 = .error e ∧ e.primary = .streamBroken handle.path) ∧
    (∀ e ∈ t.exchanges, e.isWork handle.fd = true ∨ e.isClose handle.fd = true) ∧
    (t.exchanges.countP (Exchange.isClose handle.fd) = if .close ∈ calls then 1 else 0) ∧
    (.close ∈ calls → w.close t = (.ok (), w, t)) := by
  intro w t
  have hnew : Intact handle holds .empty (.new handle 0 bufferSize) (Traced.mk s []) :=
    ⟨⟨rfl, rfl, rfl⟩, rfl, Nat.lt_of_lt_of_le Nat.zero_lt_one (Nat.le_max_right _ _),
      ⟨rfl, by simp, hs⟩, rfl, rfl⟩
  have h : Stands handle holds (StreamCall.handedBy calls) (decide (.close ∈ calls)) w t := by
    have hafter := (Stands.intact hnew).after hstore calls
    rwa [ByteArray.empty_append, Bool.false_or] at hafter
  obtain ⟨-, hfront, hoffset, hrest⟩ := h.accounted
  obtain ⟨hkinds, hcount⟩ := h.exchanges
  simp only [decide_eq_true_eq] at hcount
  refine ⟨hfront, hoffset, StreamCall.commitOffset_le w t, hrest, ?_, ?_, hkinds, hcount, ?_⟩
  · intro call hcall hend
    have hrefuses := h.refuses (by simpa using hend)
    simp only [decide_eq_true_eq] at hrefuses
    exact StreamCall.on_of_checkWritable hrefuses hcall
  · intro hopen hfailed
    rw [decide_eq_false hopen] at h
    exact h.close_of_failedWrite hfailed
  · intro hclosed
    rw [decide_eq_true hclosed] at h
    cases h with
    | closed hw => exact Writer.close_of_isClosed hw t

open Memory in
/-- Of five bytes the store takes two and refuses the next two. -/
theorem write_stream_of_calls_second_write_refused :
    let opened := (Store.new {}).openPath "/f" Creation.flags 0o644
    let before : Interrupted :=
      { store := opened.2
        fate := fun n => if n = 1 then .refused .eio else .answered
        patience := 0 }
    let ran := StreamCall.after (.new ⟨⟨3⟩, "/f"⟩ 0 2) (Traced.mk before [])
      [.bytes "abcde".toUTF8, .flush]
    opened.1 = .ok ⟨3⟩ ∧ ran.1.commitOffset = 2 ∧
      (∃ held, Store.HoldsAt ⟨3⟩ "/f" held ran.2.store.store ∧
        held.extract 0 2 = "ab".toUTF8) ∧
      (StreamCall.byte 102).on ran.1 ran.2 = (.error (.streamBroken "/f"), ran.1, ran.2) ∧
      ∃ e, (ran.1.close ran.2).1 = .error e ∧ e.primary = .streamBroken "/f" := by
  intro opened before ran
  have hopened : opened.1 = .ok ⟨3⟩ := by decide +kernel
  obtain ⟨e, hempty, hwritable, -⟩ := Store.writableAt_of_openPath (s := .new {})
    (Reachable.new {}).forest (show opened = (.ok ⟨3⟩, opened.2) by rw [← hopened])
  obtain ⟨⟨held, hheld, -, -, hfront⟩, -, -, -, hrefused, hlost, -⟩ := write_stream_of_calls
    ⟨⟨3⟩, "/f"⟩ (s := before) (Interrupted.takesFronts (Store.takesFronts ⟨3⟩ "/f"))
    (hwritable.holdsAt hempty) 2 [.bytes "abcde".toUTF8, .flush]
  have hoffset : ran.1.commitOffset = 2 := by decide +kernel
  have hfailed : ran.2.exchanges.any Exchange.isFailedWrite = true := by decide +kernel
  obtain ⟨failure, hmem, hfailure⟩ := List.any_eq_true.1 hfailed
  refine ⟨hopened, hoffset, ⟨held, hheld, ?_⟩, ?_, hlost (by decide) ⟨failure, hmem, hfailure⟩⟩
  · rw [show _ = 2 from hoffset] at hfront
    rw [hfront]
    decide +kernel
  · refine hrefused (.byte 102) (by decide) (.inr ⟨failure, hmem, ?_⟩)
    rw [Exchange.isFailure, hfailure, Bool.true_or]

end Accounting
end VolumeFs
