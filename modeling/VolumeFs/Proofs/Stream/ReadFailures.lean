import VolumeFs.Proofs.Store.Unsteady
import VolumeFs.Proofs.Stream.Failures
import VolumeFs.Proofs.Stream.Freshness

/-!
# Reads that fail leave no trace

A read that fails may have written over the whole buffer of a stream. Nothing of that is ever handed
out: where a read fails the window is empty, so the calls after it are answered as if the call that
failed had never been made. A window never reaches beyond the buffer, and no call hands out more
than there is room for.
-/

namespace VolumeFs

open Bytes

namespace Reader

def IsWithin (r : Reader) : Prop :=
  ∃ buffer, r.buffer = some buffer ∧ r.windowStart ≤ r.windowEnd ∧
    r.windowEnd ≤ buffer.bytes.size

variable {σ : Type} [StoreClient σ] {r : Reader}

private theorem isWithin_new (handle : Handle) (buffer : Buffer) :
    (Reader.new handle buffer).IsWithin :=
  ⟨buffer, rfl, Nat.le_refl _, Nat.zero_le _⟩

/-- Whatever a store answers, the window is within the buffer, and is not empty where the stream
says so. -/
theorem IsWithin.fill (h : r.IsWithin) (s : σ) :
    (r.fill s).2.1.IsWithin ∧ ((r.fill s).1 = .ok true → (r.fill s).2.1.HasWindow) := by
  obtain ⟨buffer, hbuffer, hstart, hend⟩ := h
  unfold Reader.fill
  split
  · exact ⟨⟨buffer, hbuffer, hstart, hend⟩, nofun⟩
  · split
    · rename_i hwindow
      exact ⟨⟨buffer, hbuffer, hstart, hend⟩, fun _ => hwindow⟩
    · split
      · rename_i handle buffer' _ hbuffer'
        obtain rfl := Option.some.inj (hbuffer.symm.trans hbuffer')
        have hsize := StoreClient.size_read s handle.fd buffer.bytes r.fileOffset
        generalize StoreClient.read s handle.fd buffer.bytes r.fileOffset = outcome at hsize ⊢
        obtain ⟨code | count, bytes, s'⟩ := outcome
        · exact ⟨⟨_, rfl, hstart, hsize ▸ hend⟩, nofun⟩
        · dsimp only
          split
          · exact ⟨⟨_, rfl, hstart, hsize ▸ hend⟩, nofun⟩
          · rename_i hcount
            refine ⟨⟨_, rfl, Nat.zero_le _, Nat.le_of_not_lt hcount⟩, fun hmore => ?_⟩
            have hmore : decide (0 < count) = true := Except.ok.inj hmore
            show 0 < count
            exact of_decide_eq_true hmore
      · exact ⟨⟨buffer, hbuffer, hstart, hend⟩, nofun⟩

private theorem IsWithin.size_peek (h : r.IsWithin) (limit : Nat) :
    (r.peek limit).size = min limit (r.windowEnd - r.windowStart) := by
  obtain ⟨buffer, hbuffer, -, hend⟩ := h
  simp only [Reader.peek, hbuffer, ByteArray.size_extract]
  omega

private theorem IsWithin.advance (h : r.IsWithin) {count : Nat}
    (hcount : count ≤ r.windowEnd - r.windowStart) : (r.advance count).IsWithin := by
  obtain ⟨buffer, hbuffer, hstart, hend⟩ := h
  refine ⟨buffer, hbuffer, ?_, hend⟩
  simp only [Reader.advance]
  omega

private theorem IsWithin.seek (h : r.IsWithin) (position : Nat) : (r.seek position).2.IsWithin := by
  obtain ⟨buffer, hbuffer, hstart, hend⟩ := h
  unfold Reader.seek
  split
  · exact ⟨buffer, hbuffer, hstart, hend⟩
  · split
    · exact ⟨buffer, hbuffer, hstart, hend⟩
    · exact ⟨buffer, hbuffer, Nat.le_refl _, Nat.zero_le _⟩

private theorem IsWithin.readByte (h : r.IsWithin) (s : σ) : (r.readByte s).2.1.IsWithin := by
  obtain ⟨hfilled, hwindow⟩ := h.fill s
  unfold Reader.readByte
  generalize r.fill s = outcome at hfilled hwindow
  obtain ⟨e | _ | _, r₁, s₁⟩ := outcome
  all_goals dsimp only at hfilled hwindow ⊢
  · exact hfilled
  · exact hfilled
  · have hsome : r₁.windowStart < r₁.windowEnd := hwindow rfl
    exact hfilled.advance (by omega)

private theorem IsWithin.read (h : r.IsWithin) (s : σ) (dest : ByteArray) :
    (r.read s dest).2.2.1.IsWithin ∧
      ∀ count, (r.read s dest).1 = .ok (some count) → count ≤ dest.size := by
  unfold Reader.read
  split
  · refine ⟨h, fun count hcount => ?_⟩
    cases hopen : r.checkOpen with
    | error e =>
      rw [hopen] at hcount
      cases hcount
    | ok =>
      rw [hopen] at hcount
      cases hcount
      exact Nat.zero_le _
  · obtain ⟨hfilled, -⟩ := h.fill s
    generalize r.fill s = outcome at hfilled
    obtain ⟨e | _ | _, r₁, s₁⟩ := outcome
    all_goals dsimp only at hfilled ⊢
    · exact ⟨hfilled, nofun⟩
    · exact ⟨hfilled, nofun⟩
    · have hsize := hfilled.size_peek dest.size
      refine ⟨hfilled.advance (by omega), fun count hcount => ?_⟩
      cases hcount
      omega

end Reader

def ReadCall.room : ReadCall → Nat
  | byte => 1
  | bytes dest | streamBytes dest => dest.size
  | range dest offset length => min length (dest.size - offset)
  | _ => 0

def ReadAnswer.taken : ReadAnswer → Nat
  | byte (.ok (some _)) => 1
  | bytes (.ok (some count)) _ | streamBytes (.ok count) _ => count
  | _ => 0

open Reader in
private theorem ReadCall.isWithin_on {σ : Type} [StoreClient σ] {r : Reader} (h : r.IsWithin)
    (s : σ) (call : ReadCall) :
    (call.on r s).2.1.IsWithin ∧ (call.on r s).1.taken ≤ call.room := by
  cases call with
  | byte =>
    refine ⟨h.readByte s, ?_⟩
    simp only [on, room]
    generalize r.readByte s = outcome
    obtain ⟨e | _ | b, r', s'⟩ := outcome
    · exact Nat.zero_le _
    · exact Nat.zero_le _
    · exact Nat.le_refl _
  | bytes dest =>
    obtain ⟨hread, hcount⟩ := h.read s dest
    refine ⟨hread, ?_⟩
    simp only [on, room]
    generalize r.read s dest = outcome at hcount
    obtain ⟨e | _ | count, dest', r', s'⟩ := outcome
    · exact Nat.zero_le _
    · exact Nat.zero_le _
    · exact hcount count rfl
  | streamBytes dest =>
    obtain ⟨hread, hcount⟩ := h.read s dest
    simp only [on, room, Reader.streamRead]
    generalize r.read s dest = outcome at hread hcount
    obtain ⟨e | _ | count, dest', r', s'⟩ := outcome
    · exact ⟨hread, Nat.zero_le _⟩
    · exact ⟨hread, Nat.zero_le _⟩
    · exact ⟨hread, hcount count rfl⟩
  | range dest offset length =>
    simp only [on, room, Reader.readInto]
    split
    · exact ⟨h, Nat.zero_le _⟩
    · obtain ⟨hread, hcount⟩ := h.read s (dest.extract offset (offset + length))
      rw [ByteArray.size_extract] at hcount
      generalize r.read s (dest.extract offset (offset + length)) = outcome at hread hcount
      obtain ⟨e | _ | count, dest', r', s'⟩ := outcome
      · exact ⟨hread, Nat.zero_le _⟩
      · exact ⟨hread, Nat.zero_le _⟩
      · have hroom := hcount count rfl
        refine ⟨hread, ?_⟩
        simp only [ReadAnswer.taken]
        omega
  | seek position => exact ⟨h.seek position, Nat.zero_le _⟩
  | streamSeek whence distance =>
    simp only [on, room, Reader.streamSeek]
    generalize r.origin s whence = outcome
    obtain ⟨e | base, s'⟩ := outcome
    · exact ⟨h, Nat.zero_le _⟩
    · dsimp only
      split
      · exact ⟨h, Nat.zero_le _⟩
      · exact ⟨h.seek _, Nat.zero_le _⟩

/-- What a step failed with because a call on the store failed. -/
def ReadStep.failure? (path : String) (step : ReadStep) : Option VolumeError :=
  step.exchanges.findSome? (Exchange.failure? path)

/-- The answer of a call that fails. The destination is as it was. -/
def ReadCall.refusal : ReadCall → VolumeError → ReadAnswer
  | byte, e => .byte (.error e)
  | bytes dest, e | range dest _ _, e => .bytes (.error e) dest
  | streamBytes dest, e => .streamBytes (.error (.ofVolume e)) dest
  | seek _, e => .moved (.error e)
  | streamSeek _ _, e => .streamMoved (.error (.ofVolume e))

/-- What was exchanged with a store, and the store without the reads that fail. -/
def Traced.steadied (t : Traced Unsteady) : Traced Unsteady := ⟨t.store.steadied, t.exchanges⟩

namespace Reader

/-- Two open streams that differ in nothing but what their buffers hold outside of the window. -/
structure Twins (handle : Handle) (r r' : Reader) : Prop where
  path : r.path = handle.path
  handle : r.handle = some handle
  isClosed : r.isClosed = false
  buffer : ∃ buffer buffer', r.buffer = some buffer ∧ r' = { r with buffer := some buffer' } ∧
    buffer'.bytes.size = buffer.bytes.size ∧
    buffer'.bytes.extract r.windowStart r.windowEnd =
      buffer.bytes.extract r.windowStart r.windowEnd

/-- A call failed and left no trace, so that a stream on which it was not made is still a twin. -/
structure Untouched (handle : Handle) (r r' : Reader) (s : Unsteady) (e : VolumeError)
    (r₁ : Reader) (t : Traced Unsteady) : Prop where
  failure : t.exchanges.findSome? (Exchange.failure? handle.path) = some e
  position : r₁.fileOffset = r.fileOffset
  twins : r₁.Twins handle r'
  store : t.store.steadied = s.steadied

/-- A call was made on both streams, and they are still twins. -/
structure Matched (handle : Handle) (r₁ r₁' : Reader) (t : Traced Unsteady) : Prop where
  failure : t.exchanges.findSome? (Exchange.failure? handle.path) = none
  twins : r₁.Twins handle r₁'

variable {handle : Handle} {r r' : Reader}

private theorem Twins.fileOffset (h : r.Twins handle r') : r'.fileOffset = r.fileOffset := by
  obtain ⟨_, _, -, rfl, -⟩ := h.buffer
  rfl

private theorem Twins.checkOpen (h : r.Twins handle r') :
    r.checkOpen = .ok () ∧ r'.checkOpen = .ok () := by
  obtain ⟨buffer, buffer', -, rfl, -⟩ := h.buffer
  simp only [Reader.checkOpen, h.isClosed, Bool.false_eq_true, if_false, and_self]

private theorem Twins.peek (h : r.Twins handle r') (limit : Nat) :
    r'.peek limit = r.peek limit := by
  obtain ⟨buffer, buffer', hbuffer, rfl, -, hwindow⟩ := h.buffer
  have hpeek (bytes : ByteArray) :
      bytes.extract r.windowStart (min (r.windowStart + limit) r.windowEnd) =
        (bytes.extract r.windowStart r.windowEnd).extract 0 limit := by
    rw [ByteArray.extract_extract, Nat.add_zero]
  simp only [Reader.peek, hbuffer, hpeek, hwindow]

private theorem Twins.advance (h : r.Twins handle r') (count : Nat) :
    (r.advance count).Twins handle (r'.advance count) := by
  obtain ⟨buffer, buffer', hbuffer, rfl, hsize, hwindow⟩ := h.buffer
  refine ⟨h.path, h.handle, h.isClosed, buffer, buffer', hbuffer, rfl, hsize, ?_⟩
  have hrest (bytes : ByteArray) : bytes.extract (r.windowStart + count) r.windowEnd =
      (bytes.extract r.windowStart r.windowEnd).extract count (r.windowEnd - r.windowStart) := by
    rw [ByteArray.extract_extract]
    congr 1
    omega
  simp only [Reader.advance, hrest, hwindow]

private theorem Twins.seek (h : r.Twins handle r') (position : Nat) :
    (r'.seek position).1 = (r.seek position).1 ∧
      (r.seek position).2.Twins handle (r'.seek position).2 := by
  obtain ⟨hopen, hopen'⟩ := h.checkOpen
  obtain ⟨buffer, buffer', hbuffer, rfl, hsize, hwindow⟩ := h.buffer
  simp only [Reader.seek, hopen, hopen']
  split
  · exact ⟨rfl, h⟩
  · exact ⟨rfl, h.path, h.handle, h.isClosed, buffer, buffer', hbuffer, rfl, hsize, by simp⟩

/-- Either the one stream fails to get a window, or both get the same one. -/
theorem Twins.fill (h : r.Twins handle r') (s : Unsteady) :
    (∃ e r₁ t, r.fill (Traced.mk s []) = (.error e, r₁, t) ∧ r.Untouched handle r' s e r₁ t) ∨
      ∃ more r₁ r₁' t, r.fill (Traced.mk s []) = (.ok more, r₁, t) ∧
        r'.fill (Traced.mk s.steadied []) = (.ok more, r₁', t.steadied) ∧
        r₁.Matched handle r₁' t := by
  obtain ⟨hopen, hopen'⟩ := h.checkOpen
  obtain ⟨buffer, buffer', hbuffer, rfl, hsize, hwindow⟩ := h.buffer
  simp only [Reader.fill, hopen, hopen']
  split
  · exact .inr ⟨_, _, _, _, rfl, rfl, rfl, h⟩
  · rename_i hempty
    have hread (s : Unsteady) (bytes : ByteArray) :
        StoreClient.read (Traced.mk s []) handle.fd bytes r.fileOffset =
          (Traced.mk s []).read handle.fd bytes r.fileOffset := rfl
    simp only [h.handle, hbuffer, hread, Traced.read, List.nil_append]
    rcases s.read_cases handle.fd hsize r.fileOffset with
      ⟨answer, bytes, s₁, hanswer, hkept, hstore, hfault⟩ |
      ⟨count, bytes, bytes', s₁, hanswer, hanswer', hcount, hkept, hkept', hfront⟩
    · -- The window is empty, so it does not matter what the read left in the buffer.
      have hnone (bytes : ByteArray) : bytes.extract r.windowStart r.windowEnd = .empty :=
        ByteArray.extract_eq_empty_iff.2 (by omega)
      have htwins : { r with handle := some handle, buffer := some { buffer with bytes } }.Twins
          handle { r with handle := some handle, buffer := some buffer' } :=
        ⟨h.path, rfl, h.isClosed, _, buffer', rfl, rfl, hsize.trans hkept.symm,
          (hnone _).trans (hnone _).symm⟩
      rw [hanswer]
      cases answer with
      | error code =>
        refine .inl ⟨_, _, _, rfl, ?_, rfl, htwins, hstore⟩
        simp only [List.findSome?, Exchange.failure?, h.path]
      | ok count =>
        have hexcess := hfault count rfl
        dsimp only
        rw [if_pos (by omega)]
        refine .inl ⟨_, _, _, rfl, ?_, rfl, htwins, hstore⟩
        simp only [List.findSome?, Exchange.failure?, h.path, if_pos hexcess]
    · rw [hanswer, hanswer']
      dsimp only
      rw [if_neg (by omega), if_neg (by omega), hsize]
      refine .inr ⟨_, _, _, _, rfl, rfl, ?_, ?_⟩
      · simp only [List.findSome?, Exchange.failure?, if_neg (Nat.not_lt.2 hcount)]
      · exact ⟨h.path, rfl, h.isClosed, _, _, rfl, rfl, hkept'.trans hkept.symm, hfront⟩

private theorem Twins.read (h : r.Twins handle r') (s : Unsteady) (dest : ByteArray) :
    (∃ e r₁ t, r.read (Traced.mk s []) dest = (.error e, dest, r₁, t) ∧
      r.Untouched handle r' s e r₁ t) ∨
      ∃ result dest' r₁ r₁' t, r.read (Traced.mk s []) dest = (result, dest', r₁, t) ∧
        r'.read (Traced.mk s.steadied []) dest = (result, dest', r₁', t.steadied) ∧
        r₁.Matched handle r₁' t := by
  obtain ⟨hopen, hopen'⟩ := h.checkOpen
  by_cases hdest : dest.size = 0
  · simp only [Reader.read, if_pos hdest, hopen, hopen']
    exact .inr ⟨_, _, _, _, _, rfl, rfl, rfl, h⟩
  · simp only [Reader.read, if_neg hdest]
    rcases h.fill s with ⟨e, r₁, t, hfill, huntouched⟩ | ⟨more, r₁, r₁', t, hfill, hfill', hmatched⟩
    · rw [hfill]
      exact .inl ⟨e, r₁, t, rfl, huntouched⟩
    · rw [hfill, hfill']
      cases more with
      | false => exact .inr ⟨_, _, _, _, _, rfl, rfl, hmatched⟩
      | true =>
        simp only [hmatched.twins.peek]
        exact .inr ⟨_, _, _, _, _, rfl, rfl, hmatched.failure, hmatched.twins.advance _⟩

private theorem Twins.origin (h : r.Twins handle r') (s : Unsteady) (whence : SeekOrigin) :
    ∃ base t, r.origin (Traced.mk s []) whence = (base, t) ∧
      r'.origin (Traced.mk s.steadied []) whence = (base, t.steadied) ∧
      t.exchanges.findSome? (Exchange.failure? handle.path) = none := by
  obtain ⟨buffer, buffer', hbuffer, rfl, -⟩ := h.buffer
  cases whence with
  | start => exact ⟨_, _, rfl, rfl, rfl⟩
  | current => exact ⟨_, _, rfl, rfl, rfl⟩
  | finish =>
    have hattr (s : Unsteady) : StoreClient.getAttr (Traced.mk s []) r.path =
        (.ok s.stat, ⟨s, [.getAttr r.path (.ok s.stat)]⟩) := rfl
    simp only [Reader.origin, h.handle, hattr]
    exact ⟨_, _, rfl, rfl, rfl⟩

/-- A call on the one stream fails without a trace, or comes to the same on both. -/
theorem Twins.call (h : r.Twins handle r') (s : Unsteady) (call : ReadCall) :
    (∃ e r₁ t, call.on r (Traced.mk s []) = (call.refusal e, r₁, t) ∧
      r.Untouched handle r' s e r₁ t) ∨
      ∃ answer r₁ r₁' t, call.on r (Traced.mk s []) = (answer, r₁, t) ∧
        call.on r' (Traced.mk s.steadied []) = (answer, r₁', t.steadied) ∧
        r₁.Matched handle r₁' t := by
  cases call with
  | byte =>
    simp only [ReadCall.on, Reader.readByte]
    rcases h.fill s with ⟨e, r₁, t, hfill, huntouched⟩ | ⟨more, r₁, r₁', t, hfill, hfill', hmatched⟩
    · rw [hfill]
      exact .inl ⟨e, r₁, t, rfl, huntouched⟩
    · rw [hfill, hfill']
      cases more with
      | false => exact .inr ⟨_, _, _, _, rfl, rfl, hmatched⟩
      | true =>
        simp only [hmatched.twins.peek]
        exact .inr ⟨_, _, _, _, rfl, rfl, hmatched.failure, hmatched.twins.advance 1⟩
  | bytes dest =>
    simp only [ReadCall.on]
    rcases h.read s dest with ⟨e, r₁, t, hread, huntouched⟩ |
      ⟨result, dest', r₁, r₁', t, hread, hread', hmatched⟩
    · rw [hread]
      exact .inl ⟨e, r₁, t, rfl, huntouched⟩
    · rw [hread, hread']
      exact .inr ⟨_, r₁, r₁', t, rfl, rfl, hmatched⟩
  | streamBytes dest =>
    simp only [ReadCall.on, Reader.streamRead]
    rcases h.read s dest with ⟨e, r₁, t, hread, huntouched⟩ |
      ⟨result, dest', r₁, r₁', t, hread, hread', hmatched⟩
    · rw [hread]
      exact .inl ⟨e, r₁, t, rfl, huntouched⟩
    · rw [hread, hread']
      exact .inr ⟨_, r₁, r₁', t, rfl, rfl, hmatched⟩
  | range dest offset length =>
    obtain ⟨buffer, buffer', hbuffer, rfl, hsize, hwindow⟩ := h.buffer
    simp only [ReadCall.on, Reader.readInto]
    split
    · exact .inr ⟨_, _, _, _, rfl, rfl, rfl, h⟩
    · rename_i hrange
      rcases h.read s (dest.extract offset (offset + length)) with ⟨e, r₁, t, hread, huntouched⟩ |
        ⟨result, piece, r₁, r₁', t, hread, hread', hmatched⟩
      · rw [hread]
        refine .inl ⟨e, r₁, t, ?_, huntouched⟩
        simp only [ReadCall.refusal, overlay_extract dest (Nat.le_of_not_lt hrange)]
      · rw [hread, hread']
        exact .inr ⟨_, r₁, r₁', t, rfl, rfl, hmatched⟩
  | seek position =>
    obtain ⟨hresult, htwins⟩ := h.seek position
    simp only [ReadCall.on, hresult]
    exact .inr ⟨_, _, _, _, rfl, rfl, rfl, htwins⟩
  | streamSeek whence distance =>
    obtain ⟨base, t, horigin, horigin', hnone⟩ := h.origin s whence
    simp only [ReadCall.on, Reader.streamSeek, horigin, horigin']
    cases base with
    | error e => exact .inr ⟨_, _, _, _, rfl, rfl, hnone, h⟩
    | ok base =>
      dsimp only
      split
      · exact .inr ⟨_, _, _, _, rfl, rfl, hnone, h⟩
      · obtain ⟨hresult, htwins⟩ := h.seek (base + distance).toNat
        simp only [hresult]
        exact .inr ⟨_, _, _, _, rfl, rfl, hnone, htwins⟩

end Reader

namespace ReadCall

/-- What is seen of a stream that reads a store of one file, and the two after it. -/
def seen (r : Reader) (s : Unsteady) (calls : List ReadCall) : List ReadStep × Reader × Unsteady :=
  ReadEvent.onEach (some ·.file) r s (calls.map .call)

theorem seen_cons (r : Reader) (s : Unsteady) (call : ReadCall) (calls : List ReadCall)
    {answer r₁ t} (h : call.on r (Traced.mk s []) = (answer, r₁, t)) : seen r s (call :: calls) =
      (⟨call, answer, r.fileOffset, r₁.fileOffset, t.exchanges, some s.file⟩ ::
        (seen r₁ t.store calls).1, (seen r₁ t.store calls).2) := by
  simp only [seen, List.map_cons, ReadEvent.onEach, h]

private theorem map_call_seen (r : Reader) (s : Unsteady) (calls : List ReadCall) :
    (seen r s calls).1.map (·.call) = calls := by
  induction calls generalizing r s with
  | nil => rfl
  | cons call calls ih =>
    rw [seen_cons r s call calls rfl, List.map_cons, ih]

private theorem isWithin_seen {r : Reader} (h : r.IsWithin) (s : Unsteady) (calls : List ReadCall) :
    (seen r s calls).2.1.IsWithin := by
  induction calls generalizing r s with
  | nil => exact h
  | cons call calls ih =>
    rw [seen_cons r s call calls rfl]
    exact ih (isWithin_on h _ call).1 _

end ReadCall

open ReadCall

/-- The steps of the one stream that did not fail are all that is seen of the other one. -/
theorem Reader.Twins.seen {handle : Handle} {r r' : Reader} (h : r.Twins handle r') (s : Unsteady)
    (calls : List ReadCall) :
    (∀ step ∈ (seen r s calls).1, ∀ e, step.failure? handle.path = some e →
      step.answer = step.call.refusal e ∧ step.landed = step.position) ∧
      let kept := (seen r s calls).1.filter (·.failure? handle.path |>.isNone)
      (seen r' s.steadied (kept.map (·.call))).1 = kept := by
  induction calls generalizing r r' s with
  | nil => exact ⟨fun _ hstep => absurd hstep List.not_mem_nil, rfl⟩
  | cons call calls ih =>
    rcases h.call s call with ⟨e, r₁, t, hcall, huntouched⟩ |
      ⟨answer, r₁, r₁', t, hcall, hcall', hmatched⟩
    · obtain ⟨hfailed, hkept⟩ := ih huntouched.twins t.store
      rw [huntouched.store] at hkept
      rw [seen_cons r s call calls hcall]
      refine ⟨fun step hstep => ?_, ?_⟩
      · rcases List.mem_cons.1 hstep with rfl | hstep
        · intro e' he'
          obtain rfl : e = e' := Option.some.inj (huntouched.failure.symm.trans he')
          exact ⟨rfl, huntouched.position⟩
        · exact hfailed step hstep
      · rw [List.filter_cons_of_neg]
        · exact hkept
        · simp [ReadStep.failure?, huntouched.failure]
    · obtain ⟨hfailed, hkept⟩ := ih hmatched.twins t.store
      rw [seen_cons r s call calls hcall]
      refine ⟨fun step hstep => ?_, ?_⟩
      · rcases List.mem_cons.1 hstep with rfl | hstep
        · intro e he
          cases hmatched.failure.symm.trans he
        · exact hfailed step hstep
      · rw [List.filter_cons_of_pos]
        · dsimp only
          rw [List.map_cons, seen_cons r' s.steadied call _ hcall', h.fileOffset,
            hmatched.twins.fileOffset]
          exact congrArg _ hkept
        · simp [ReadStep.failure?, hmatched.failure]

/-- A call during which a read of the store fails, or claims too much, is answered with that failure
and does not move the stream. Without such calls, and on a store without such reads, the same is
seen of the calls that are left. Whatever was called before, the window lies within the buffer, is
not empty where a call takes from it, and no call gives more than there is room for. -/
theorem seen_without_failures (handle : Handle) (buffer : Buffer) (s : Unsteady)
    (calls : List ReadCall) :
    let run := seen (.new handle buffer)
    let steps := (run s calls).1
    let r := (run s calls).2.1
    let s' := (run s calls).2.2
    let kept := steps.filter fun step => (step.failure? handle.path).isNone
    steps.map (·.call) = calls ∧
      (∀ step ∈ steps, ∀ e, step.failure? handle.path = some e →
        step.answer = step.call.refusal e ∧ step.landed = step.position) ∧
      (run s.steadied (kept.map (·.call))).1 = kept ∧
      r.IsWithin ∧ (r.fill s').2.1.IsWithin ∧
      ((r.fill s').1 = .ok true → (r.fill s').2.1.HasWindow) ∧
      ∀ next : ReadCall, (next.on r s').1.taken ≤ next.room := by
  intro run steps r s' kept
  have htwins : (Reader.new handle buffer).Twins handle (Reader.new handle buffer) :=
    ⟨rfl, rfl, rfl, buffer, buffer, rfl, rfl, rfl, rfl⟩
  obtain ⟨hfailed, hkept⟩ := htwins.seen s calls
  have hwithin : r.IsWithin := isWithin_seen (Reader.isWithin_new handle buffer) s calls
  obtain ⟨hfilled, hwindow⟩ := hwithin.fill s'
  exact ⟨map_call_seen _ s calls, hfailed, hkept, hwithin, hfilled, hwindow,
    fun next => (isWithin_on hwithin s' next).2⟩

/-- A read writes over the buffer and claims too much, while the stream has no window. -/
example :
    let s : Unsteady := ⟨"abcdef".toUTF8, {}, [.given 2 .empty, .exceeded 3 "!!!!".toUTF8]⟩
    let steps := (seen (.new ⟨⟨3⟩, "/f"⟩ ⟨0, "....".toUTF8⟩) s [.byte, .byte, .byte, .byte]).1
    steps.map (·.failure? "/f") = [none, none, some (.store "/f" .eio), none] ∧
      steps.map (·.landed) = [1, 2, 2, 3] := by
  decide +kernel

end VolumeFs
