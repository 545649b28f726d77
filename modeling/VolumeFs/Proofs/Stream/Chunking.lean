import VolumeFs.Proofs.Stream.Created
import VolumeFs.Proofs.Stream.WriteCall

/-!
# Streams do not show how they were filled

The bytes that a direct stream is handed are cut at the flushes only. Each segment between two
flushes reaches the store in whole buffers and one write for what is left, however it was handed
over, and the file comes out as all the bytes in a row.
-/

namespace VolumeFs

open Bytes Memory

def placed : Nat → List ByteArray → List (Nat × Nat)
  | _, [] => []
  | start, piece :: pieces => (start, piece.size) :: placed (start + piece.size) pieces

/-- The writes of a segment: whole buffers, and one write for what is left. -/
def segmentWrites (capacity start length : Nat) : List (Nat × Nat) :=
  (List.range (length / capacity)).map (fun i => (start + i * capacity, capacity)) ++
    if length % capacity = 0 then []
    else [(start + length / capacity * capacity, length % capacity)]

def segmentsWrites (capacity : Nat) : Nat → List Nat → List (Nat × Nat)
  | _, [] => []
  | start, length :: lengths =>
    segmentWrites capacity start length ++ segmentsWrites capacity (start + length) lengths

theorem placed_append (start : Nat) (front rest : List ByteArray) :
    placed start (front ++ rest) = placed start front ++ placed (start + total front) rest := by
  induction front generalizing start with
  | nil => rfl
  | cons piece front ih => simp [placed, ih, total, Nat.add_assoc]

theorem segmentsWrites_append (capacity start : Nat) (front : List ByteArray) (rest : List Nat) :
    segmentsWrites capacity start (front.map ByteArray.size ++ rest) =
      segmentsWrites capacity start (front.map ByteArray.size) ++
        segmentsWrites capacity (start + total front) rest := by
  induction front generalizing start with
  | nil => rfl
  | cons piece front ih => simp [segmentsWrites, total, ih, Nat.add_assoc]

private theorem total_of_whole {capacity : Nat} {pieces : List ByteArray}
    (h : ∀ piece ∈ pieces, piece.size = capacity) : total pieces = pieces.length * capacity := by
  induction pieces with
  | nil => simp
  | cons piece pieces ih =>
    have hpiece := h piece List.mem_cons_self
    have hrest := ih fun p hp => h p (List.mem_cons_of_mem _ hp)
    rw [total, hrest, hpiece, List.length_cons, Nat.succ_mul, Nat.add_comm]

private theorem placed_of_whole {capacity : Nat} {pieces : List ByteArray} (start : Nat)
    (h : ∀ piece ∈ pieces, piece.size = capacity) : placed start pieces =
      (List.range pieces.length).map fun i => (start + i * capacity, capacity) := by
  induction pieces generalizing start with
  | nil => rfl
  | cons piece pieces ih =>
    rw [placed, h piece List.mem_cons_self, ih _ fun p hp => h p (List.mem_cons_of_mem _ hp),
      List.length_cons, List.range_succ_eq_map, List.map_cons, List.map_map]
    simp [Function.comp_def, Nat.succ_mul, Nat.add_assoc, Nat.add_comm capacity]

private theorem placed_append_remainder {capacity : Nat} {pieces : List ByteArray}
    {rest : ByteArray} (start : Nat) (h : ∀ piece ∈ pieces, piece.size = capacity)
    (hrest : rest.size < capacity) :
    placed start (pieces ++ remainder rest) =
      segmentWrites capacity start (total pieces + rest.size) := by
  have htotal := total_of_whole h
  have hdiv : (pieces.length * capacity + rest.size) / capacity = pieces.length := by
    rw [Nat.mul_comm, Nat.mul_add_div (by omega), Nat.div_eq_of_lt hrest, Nat.add_zero]
  have hmod : (pieces.length * capacity + rest.size) % capacity = rest.size := by
    rw [Nat.mul_comm, Nat.mul_add_mod, Nat.mod_eq_of_lt hrest]
  rw [placed_append, placed_of_whole start h, segmentWrites, htotal, hdiv, hmod]
  unfold remainder
  split <;> rfl

/-- The segments that were flushed, and the bytes handed over since. -/
structure Segments where
  flushed : List ByteArray
  current : ByteArray

namespace Segments

def after (g : Segments) : WriteRequest → Segments
  | .take bytes => { g with current := g.current ++ bytes }
  | .flush => ⟨g.flushed ++ [g.current], .empty⟩
  | .outside => g

/-- The segments into which calls cut what they hand over. -/
def ofCalls (calls : List WriteCall) : Segments :=
  calls.foldl (fun g call => g.after call.request) ⟨[], .empty⟩

def all (g : Segments) : List ByteArray := g.flushed ++ [g.current]

private theorem joined_all_after (g : Segments) (request : WriteRequest) :
    joined (g.after request).all = joined g.all ++ request.handed := by
  cases request <;> simp [after, all, WriteRequest.handed, joined, ByteArray.append_assoc]

end Segments

/-- The file holds the pieces, and the store has logged a write for each of them. -/
structure Logged (fd : Fd) (path : String) (e : Entry) (log : List (Nat × Nat))
    (pieces : List ByteArray) (s : Store) : Prop where
  writable : s.WritableAt fd path { e with bytes := some (joined pieces) }
  faults : s.faults = {}
  writeLog : s.calls.writeLog.toList = log ++ placed 0 pieces

section Logged

variable {fd : Fd} {path : String} {e : Entry} {log : List (Nat × Nat)} {pieces : List ByteArray}
  {s s' : Store}

private theorem Logged.write (h : Logged fd path e log pieces s) (piece : ByteArray) :
    ∃ s', s.write fd piece (total pieces) = (.ok piece.size, s') ∧
      Logged fd path e log (pieces ++ [piece]) s' := by
  obtain ⟨s', hwrite, hwritable, -, hfaults, hlog⟩ := h.writable.write rfl piece (total pieces)
  have hcount : s.acceptedCount piece = piece.size := by rw [Store.acceptedCount, h.faults]
  rw [hcount] at hwrite
  rw [Store.written, hcount, ByteArray.extract_zero_size, ← size_joined,
    overlay_padded_size] at hwritable
  refine ⟨s', hwrite, ?_, hfaults.trans h.faults, ?_⟩
  · rwa [joined_append, joined_singleton]
  · rw [hlog, Array.toList_push, h.writeLog, placed_append, Nat.zero_add, List.append_assoc]
    rfl

private theorem Logged.flush (h : Logged fd path e log pieces s) :
    ∃ s', s.flush fd = (.ok (), s') ∧ Logged fd path e log pieces s' := by
  obtain ⟨s', hflush, hwritable, -, hfaults, hlog⟩ := h.writable.flush
  rw [h.faults] at hflush
  exact ⟨s', hflush, hwritable, hfaults.trans h.faults, hlog ▸ h.writeLog⟩

private theorem ledger_logged : Writer.Ledger fd (Logged fd path e log) where
  write := by
    intro pieces s s' piece h _ hwrite
    obtain ⟨s'', hwrite', h'⟩ := h.write piece
    have hsame : (Except.ok piece.size, s'') = (.ok piece.size, s') := hwrite'.symm.trans hwrite
    cases hsame
    exact h'
  flush := by
    intro pieces s s' h hflush
    obtain ⟨s'', hflush', h'⟩ := h.flush
    have hsame : (Except.ok (), s'') = (.ok (), s') := hflush'.symm.trans hflush
    cases hsame
    exact h'

private theorem Logged.not_writeFails (h : Logged fd path e log pieces s) (piece : ByteArray) :
    ¬ Writer.WriteFails fd piece (total pieces) s s' := by
  rintro ⟨answer, hwrite, hne⟩
  obtain ⟨s'', hwrite', -⟩ := h.write piece
  have hsame : (Except.ok piece.size, s'') = (answer, s') := hwrite'.symm.trans hwrite
  cases hsame
  exact hne rfl

end Logged

/-- A change of the store that leaves an open file alone: it is still found and open, it holds
what it held, and no faults are set and nothing is written meanwhile. -/
structure Apart (fd : Fd) (path : String) (s s' : Store) : Prop where
  forest : s'.tree.Forest
  openFile? : s'.openFile? fd = s.openFile? fd
  entryAt? : s'.tree.entryAt? (components path) = s.tree.entryAt? (components path)
  isShutDown : s'.isShutDown = s.isShutDown
  faults : s'.faults = s.faults
  writeLog : s'.calls.writeLog = s.calls.writeLog

private theorem Logged.apart {fd : Fd} {path : String} {e : Entry} {log : List (Nat × Nat)}
    {pieces : List ByteArray} {s s' : Store} (h : Logged fd path e log pieces s)
    (hs : Apart fd path s s') : Logged fd path e log pieces s' where
  writable := by
    refine ⟨hs.forest, hs.isShutDown.trans h.writable.isUp, ?_,
      hs.entryAt?.trans h.writable.entryAt?⟩
    rw [hs.openFile?]
    exact h.writable.openFile
  faults := hs.faults.trans h.faults
  writeLog := by rw [hs.writeLog, h.writeLog]

/-- Where a stream stands that began as the first one: the flushed segments are in the file, and
the current one is there in whole pieces, up to what is in the buffer. -/
structure Chunking (first : Writer) (holds : List ByteArray → Store → Prop) (g : Segments)
    (w : Writer) (s : Store) : Prop where
  same : w = { first with buffer := w.buffer, commitOffset := w.commitOffset }
  size_buffer : w.buffer.size < first.capacity
  pieces : ∃ old cur, holds (old ++ cur) s ∧ w.commitOffset = total (old ++ cur) ∧
    joined old = joined g.flushed ∧
    placed 0 old = segmentsWrites first.capacity 0 (g.flushed.map ByteArray.size) ∧
    (∀ piece ∈ cur, piece.size = first.capacity) ∧ joined cur ++ w.buffer = g.current

section Chunking

variable {handle : Handle} {first w : Writer} {path : String} {e : Entry} {log : List (Nat × Nat)}
  {g : Segments} {s : Store}

private theorem Chunking.isSound (h : Chunking first (Logged handle.fd path e log) g w s)
    (hfirst : first.IsSound handle) : w.IsSound handle := by
  rw [h.same]
  exact ⟨hfirst.handle, hfirst.isClosed, hfirst.isBroken⟩

private theorem Chunking.capacity (h : Chunking first (Logged handle.fd path e log) g w s) :
    w.capacity = first.capacity := by rw [h.same]

private theorem Chunking.take (h : Chunking first (Logged handle.fd path e log) g w s)
    (hfirst : first.IsSound handle) (bytes : ByteArray) :
    ∃ w' s', w.writeBytes s bytes = (.ok (), w', s') ∧
      Chunking first (Logged handle.fd path e log) (g.after (.take bytes)) w' s' := by
  obtain ⟨old, cur, hs, hoffset, hold, hplaced, hcur, hbytes⟩ := h.pieces
  have hsound := h.isSound hfirst
  have hcapacity := h.capacity
  have hfilling := Writer.filling_writeBytes hsound ledger_logged (hcapacity ▸ h.size_buffer) hs
    hoffset bytes
  generalize w.writeBytes s bytes = result at hfilling
  cases hfilling with
  | @done new rest s' hnew hrest hjoined hs' =>
    refine ⟨_, s', rfl, ?_, hcapacity ▸ hrest, old, cur ++ new, ?_, ?_, hold, hplaced, ?_, ?_⟩
    · rw [h.same]
    · rwa [← List.append_assoc]
    · rw [← List.append_assoc]
    · intro piece hpiece
      rcases List.mem_append.1 hpiece with hpiece | hpiece
      · exact hcur piece hpiece
      · exact hcapacity ▸ hnew piece hpiece
    · rw [joined_append, ByteArray.append_assoc, hjoined, ← ByteArray.append_assoc, hbytes]
      rfl
  | broken hs' _ hwrite => exact absurd hwrite (hs'.not_writeFails _)

private theorem Chunking.flush (h : Chunking first (Logged handle.fd path e log) g w s)
    (hfirst : first.IsSound handle) :
    ∃ w' s', w.commitAndFlush s = (.ok (), w', s') ∧
      Chunking first (Logged handle.fd path e log) (g.after .flush) w' s' := by
  obtain ⟨old, cur, hs, hoffset, hold, hplaced, hcur, hbytes⟩ := h.pieces
  have hflushing :=
    Writer.flushing_commitAndFlush (h.isSound hfirst).handle ledger_logged hs hoffset
  generalize w.commitAndFlush s = result at hflushing
  cases hflushing with
  | @done s' hs' =>
    have hsize : total old = total g.flushed := by rw [← size_joined, hold, size_joined]
    have hcurrent : total cur + w.buffer.size = g.current.size := by
      rw [← hbytes, ByteArray.size_append, size_joined]
    refine ⟨_, s', rfl, ?_, ?_, old ++ (cur ++ remainder w.buffer), [], ?_, ?_, ?_, ?_, by simp, ?_⟩
    · rw [h.same]
    · exact Nat.lt_of_le_of_lt (Nat.zero_le _) h.size_buffer
    · rwa [List.append_nil, ← List.append_assoc]
    · rw [List.append_nil, ← List.append_assoc]
    · simp only [Segments.after, joined_append, joined_remainder, joined_singleton, hold, hbytes]
    · rw [Segments.after, placed_append, hplaced, List.map_append, segmentsWrites_append, hsize,
        placed_append_remainder _ hcur h.size_buffer, hcurrent]
      simp [segmentsWrites]
    · simp [Segments.after]
  | notDurable hs' hflush =>
    obtain ⟨s'', hflush', -⟩ := hs'.flush
    have hsame : (Except.ok (), s'') = (.error _, _) := hflush'.symm.trans hflush
    cases hsame
  | notCommitted _ hwrite => exact absurd hwrite (hs.not_writeFails _)

private theorem Chunking.close (h : Chunking first (Logged handle.fd path e log) g w s)
    (hfirst : first.IsSound handle) :
    ∃ w' s', w.close s = (.ok (), w', s') ∧ s'.contents? path = some (joined g.all) ∧
      s'.calls.writeLog.toList =
        log ++ segmentsWrites first.capacity 0 (g.all.map ByteArray.size) := by
  have hsound := h.isSound hfirst
  obtain ⟨w₁, s₁, hflush, h₁⟩ := h.flush hfirst
  obtain ⟨old, cur, hs, -, hold, hplaced, hcur, hbytes⟩ := h₁.pieces
  -- After the flush nothing is in the current segment, so there are no pieces of it.
  have hcurrent : cur = [] := by
    have hempty : joined cur = .empty := (ByteArray.append_eq_empty_iff.1 hbytes).1
    have hzero : cur.length * first.capacity = 0 := by
      rw [← total_of_whole hcur, ← size_joined, hempty, ByteArray.size_empty]
    have hpos := h.size_buffer
    rcases Nat.mul_eq_zero.1 hzero with hlen | hlen
    · exact List.length_eq_zero_iff.1 hlen
    · omega
  rw [hcurrent, List.append_nil] at hs
  obtain ⟨s₂, hclose, htree, -, -, hlog⟩ := hs.writable.close
  rw [hs.faults] at hclose
  have hsettle : w.settle s = (.ok (), w₁, s₁) := by
    rw [Writer.settle, hsound.isBroken]
    exact hflush
  have hrelease : w₁.release s₁ = (.ok (), { w₁ with
      buffer := .empty, isClosed := true, handle := none }, s₂) := by
    have hcall : handle.close s₁ = (.ok (), s₂) := hclose
    rw [Writer.release, (h₁.isSound hfirst).handle]
    simp only [hcall]
  refine ⟨{ w₁ with buffer := .empty, isClosed := true, handle := none }, s₂, ?_, ?_, ?_⟩
  · rw [Writer.close, hsound.isClosed]
    simp only [hsettle, hrelease]
    rfl
  · have hforest : s₂.tree.Forest := htree ▸ hs.writable.forest
    rw [Store.contents?, Tree.contents?_eq hforest, htree, hs.writable.entryAt?]
    exact congrArg some hold
  · rw [hlog, hs.writeLog, hplaced]
    rfl

/-- What a whole run of calls leaves behind. -/
theorem chunking_of_run {calls : List (WriteCall × WriteAnswer)} {o : Output} {s₀ : Store}
    (hfirst : first.IsSound handle)
    (h₀ : Chunking first (Logged handle.fd path e log) ⟨[], .empty⟩ first s₀)
    (hrun : Run (Apart handle.fd path) (.direct first) s₀ calls o s) :
    ∃ w, o = .direct w ∧
      Chunking first (Logged handle.fd path e log) (.ofCalls (calls.map Prod.fst)) w s ∧
      joined (Segments.ofCalls (calls.map Prod.fst)).all = handedOver calls ∧
      ∀ p ∈ calls, p.2 = p.1.answer (p.1.request.expected first.path) := by
  induction hrun with
  | start => exact ⟨first, rfl, h₀, by simp [Segments.ofCalls, Segments.all], by simp⟩
  | step _ hs ih =>
    obtain ⟨w, rfl, h, hbytes, hanswers⟩ := ih
    refine ⟨w, rfl, ⟨h.same, h.size_buffer, ?_⟩, hbytes, hanswers⟩
    obtain ⟨old, cur, hlogged, hrest⟩ := h.pieces
    exact ⟨old, cur, hlogged.apart hs, hrest⟩
  | @call calls o s _ call ih =>
    obtain ⟨w, rfl, h, hbytes, hanswers⟩ := ih
    have hsound := h.isSound hfirst
    -- Whatever the call asks for, it is answered as expected and the segments go on by it.
    have hperform : ∃ w' s', call.request.perform w s =
        (call.request.expected first.path, w', s') ∧ Chunking first (Logged handle.fd path e log)
          ((Segments.ofCalls (calls.map Prod.fst)).after call.request) w' s' := by
      cases hrequest : call.request with
      | take bytes => exact h.take hfirst bytes
      | flush =>
        obtain ⟨w', s', hflush, h'⟩ := h.flush hfirst
        refine ⟨w', s', ?_, h'⟩
        rw [WriteRequest.perform, Writer.flush, hsound.checkWritable]
        exact hflush
      | outside =>
        refine ⟨w, s, ?_, h⟩
        rw [WriteRequest.perform, h.same]
        rfl
    obtain ⟨w', s', hperform, h'⟩ := hperform
    have hon : call.on (.direct w) s = (call.answer (call.request.expected first.path),
        .direct w', s') := by
      rw [WriteCall.on_eq (by simpa [Output.writer, h.capacity] using h.size_buffer)]
      simp only [Output.writer, hperform, Output.withWriter]
    have hcalls : Segments.ofCalls ((calls ++ [(call, (call.on (.direct w) s).1)]).map Prod.fst) =
        (Segments.ofCalls (calls.map Prod.fst)).after call.request := by
      simp [Segments.ofCalls]
    rw [hcalls, hon]
    refine ⟨w', rfl, h', ?_, ?_⟩
    · rw [Segments.joined_all_after, hbytes, handedOver_concat, WriteCall.handed_of_expected]
      rfl
    · intro p hp
      rcases List.mem_append.1 hp with hp | hp
      · exact hanswers p hp
      · rw [List.mem_singleton.1 hp]

end Chunking

section Volume

variable {v v' : Volume} {path : String} {options : CreateOptions} {token : Token}
  {s s₀ s₁ : Store} {first : Writer} {calls : List (WriteCall × WriteAnswer)} {o : Output}

private theorem chunking_of_create (hs : Reachable s) (hfaults : s.faults = {})
    (hcreate : v.create s path options token = (.ok (.direct first), v', s₀)) :
    ∃ handle e, first = .new handle 0 v.options.effectiveWriteBufferSize ∧
      handle.path = Path.ofText path ∧ Chunking first
        (Logged handle.fd (Path.ofText path) e s.calls.writeLog.toList) ⟨[], .empty⟩ first s₀ := by
  obtain ⟨handle, hopen, ho⟩ := Volume.create_eq_ok hcreate
  cases hatomic : options.atomic with
  | true => simp [hatomic] at ho
  | false =>
    simp only [hatomic, Bool.false_eq_true, if_false, Output.direct.injEq] at ho hopen
    obtain ⟨dirs, hparent⟩ : ∃ dirs, ∀ parent, Path.parent (Path.ofText path) = .ok parent →
        components parent = dirs := by
      cases Path.parent (Path.ofText path) with
      | error e => exact ⟨[], by simp⟩
      | ok parent => exact ⟨components parent, by simp⟩
    obtain ⟨hpath, s₂, e, hprepared, he, hwritable, -, -, hsame, hlog⟩ :=
      Store.writableAt_of_openFile hs.forest hparent hopen
    obtain ⟨n, hn, hn'⟩ := hprepared.faults
    have hzero : n = 0 := by
      rw [hfaults, UInt32.le_iff_toNat_le] at hn
      exact UInt32.toNat_inj.1 (Nat.le_zero.1 hn)
    have hclean : s₀.faults = {} := by rw [hsame, hn', hfaults, hzero]
    refine ⟨handle, e, ho, hpath, ?_, ?_, [], [], ⟨?_, hclean, ?_⟩, ?_, rfl, rfl, by simp, ?_⟩
    · rw [ho]
    · rw [ho]
      exact Nat.lt_of_lt_of_le Nat.zero_lt_one (Nat.le_max_right _ _)
    · rwa [List.nil_append, joined_nil, ← he]
    · rw [hlog, List.nil_append, placed, List.append_nil]
    · rw [ho]
      rfl
    · rw [ho]
      simp [Writer.new]

/-- The bytes that a direct stream is handed in a store without faults, in whatever pieces, come
out as the contents of the file, and the writes of the store depend on the segments between
flushes alone. Of the calls, only ranges that do not lie within their bytes are refused, and they
change nothing. -/
theorem direct_stream_of_run (hs : Reachable s) (hfaults : s.faults = {})
    (hcreate : v.create s path options token = (.ok (.direct first), v', s₀))
    (hrun : Run (Apart first.fd (Path.ofText path)) (.direct first) s₀ calls o s₁) :
    let capacity := max v.options.effectiveWriteBufferSize 1
    let segments := (Segments.ofCalls (calls.map Prod.fst)).all
    (o.writer.capacity = capacity ∧ o.writer.buffer.size < capacity ∧
      o.position = (handedOver calls).size) ∧
    (∀ p ∈ calls, p.2 = p.1.answer (p.1.request.expected (Path.ofText path))) ∧
    (∀ call : WriteCall, call.request = .outside →
      call.on o s₁ = (call.answer (.error (.store (Path.ofText path) .einval)), o, s₁)) ∧
    ∃ o' s₂, o.close s₁ = (.ok (), o', s₂) ∧ o.drop s₁ = s₂ ∧
      s₂.contents? (Path.ofText path) = some (handedOver calls) ∧
      joined segments = handedOver calls ∧
      s₂.calls.writeLog.toList =
        s.calls.writeLog.toList ++ segmentsWrites capacity 0 (segments.map ByteArray.size) := by
  obtain ⟨handle, e, rfl, hpath, h₀⟩ := chunking_of_create hs hfaults hcreate
  have hfirst : (Writer.new handle 0 v.options.effectiveWriteBufferSize).IsSound handle :=
    ⟨rfl, rfl, rfl⟩
  obtain ⟨w, rfl, h, hbytes, hanswers⟩ := chunking_of_run hfirst h₀ hrun
  have hsame := h.same
  have hcapacity : w.capacity = max v.options.effectiveWriteBufferSize 1 := h.capacity
  have hsize : w.buffer.size < w.capacity := hcapacity ▸ h.size_buffer
  refine ⟨⟨hcapacity, h.size_buffer, ?_⟩, ?_, ?_, ?_⟩
  · obtain ⟨old, cur, -, hoffset, hold, -, -, hcurrent⟩ := h.pieces
    rw [← hbytes, Segments.all, joined_append, joined_singleton, ← hold, ← hcurrent]
    simp [Output.position, Output.writer, Writer.position, hoffset, Nat.add_assoc]
  · rw [← hpath]
    exact hanswers
  · intro call hcall
    have hw : w.path = Path.ofText path := by rw [hsame]; exact hpath
    rw [WriteCall.on_eq (o := .direct w) hsize, hcall]
    simp only [WriteRequest.perform, Output.writer, Output.withWriter, hw]
  · obtain ⟨w', s₂, hclose, hcontents, hlog⟩ := h.close hfirst
    refine ⟨.direct w', s₂, ?_, ?_, ?_, hbytes, hlog⟩
    · simp only [Output.close, hclose]
    · simp only [Output.drop, hclose]
    · rw [hcontents, hbytes]

/-- Five bytes in a store that was empty, flushed after three, with a range that is refused. -/
theorem direct_stream_of_run_five_bytes :
    let first := Writer.new ⟨⟨3⟩, "/f"⟩ 0 2
    let created := Volume.tiny.create (Store.new {}) "/f" {} ⟨0⟩
    let ran := WriteCall.onEach (.direct first) created.2.2
      [.bytes "abc".toUTF8, .flush, .byte 100, .range "xyz".toUTF8 2 2, .streamBytes "e".toUTF8]
    created.1 = .ok (.direct first) ∧
      ∃ o' s', ran.2.1.close ran.2.2 = (.ok (), o', s') ∧
        s'.contents? "/f" = some "abcde".toUTF8 ∧
        s'.calls.writeLog.toList = [(0, 2), (2, 1), (3, 2)] := by
  intro first created ran
  have hcreated : created.1 = .ok (.direct first) := by decide +kernel
  have hcreate : created = (.ok (.direct first), created.2.1, created.2.2) := by rw [← hcreated]
  obtain ⟨-, -, -, o', s', hclose, -, hcontents, -, hlog⟩ := direct_stream_of_run
    (Reachable.new {}) rfl hcreate (Run.start.onEach [.bytes "abc".toUTF8, .flush, .byte 100,
      .range "xyz".toUTF8 2 2, .streamBytes "e".toUTF8])
  refine ⟨hcreated, o', s', hclose, hcontents.trans ?_, hlog.trans ?_⟩
  · decide +kernel
  · decide +kernel

end Volume

end VolumeFs
