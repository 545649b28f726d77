import VolumeFs.Handle
import VolumeFs.Proofs.Store.Reachable
import VolumeFs.Store.Scripted

/-!
# Stores that give prefixes

What a store owes to a stream of reads: some of the bytes that there are, and none only at the end
of the file. A store in memory does so, also under a script that cuts its reads short.
-/

namespace VolumeFs

open Bytes

/-- A store through which a file can be read. Each read gives some of the bytes that there are, but
none only where there are none, and what it leaves behind them in the buffer is its own affair. -/
structure GivesPrefixes {σ : Type} [StoreClient σ] (handle : Handle) (file : ByteArray)
    (holds : σ → Prop) : Prop where
  read : ∀ {s}, holds s → ∀ buffer offset, buffer.size ≠ 0 → ∃ count bytes s',
    StoreClient.read s handle.fd buffer offset = (.ok count, bytes, s') ∧ holds s' ∧
      count ≤ buffer.size ∧ offset + count ≤ max offset file.size ∧
      (count = 0 → file.size ≤ offset) ∧
        bytes.extract 0 count = file.extract offset (offset + count)
  getAttr : ∀ {s}, holds s → ∃ stat s', StoreClient.getAttr s handle.path = (.ok stat, s') ∧
    holds s' ∧ stat.size.toNat = file.size

theorem Bytes.slice_eq_extract (bytes : ByteArray) (start length : Nat) :
    slice bytes start length = bytes.extract start (start + (slice bytes start length).size) := by
  rw [size_slice]
  unfold slice
  split
  · congr 1
    omega
  · symm
    rw [ByteArray.extract_eq_empty_iff]
    omega

theorem Bytes.extract_overlay_zero (bytes piece : ByteArray) {count : Nat}
    (h : count ≤ piece.size) : (overlay bytes 0 piece).extract 0 count = piece.extract 0 count := by
  rw [overlay, ByteArray.extract_same, ByteArray.empty_append, ByteArray.extract_append,
    Nat.sub_eq_zero_of_le h, Nat.zero_sub, ByteArray.extract_same, ByteArray.append_empty]

variable {σ : Type} [StoreClient σ]

theorem Scripted.read_of_errors_nil {s : Scripted σ} (h : s.script.errors = []) (fd : Fd)
    (buffer : ByteArray) (offset : Nat) : ∃ passed, passed ≤ buffer.size ∧
      (s.script.readCap ≠ some 0 → buffer.size ≠ 0 → passed ≠ 0) ∧
      StoreClient.read s fd buffer offset =
        ((StoreClient.read s.store fd (buffer.extract 0 passed) offset).1,
          overlay buffer 0 (StoreClient.read s.store fd (buffer.extract 0 passed) offset).2.1,
          ⟨(StoreClient.read s.store fd (buffer.extract 0 passed) offset).2.2, s.script⟩) := by
  have hnext : s.script.next .read = (none, s.script) := by
    simp only [Script.next, h, List.lookup_nil]
  cases hcap : s.script.readCap with
  | none =>
    refine ⟨buffer.size, Nat.le_refl _, fun _ hbuffer => hbuffer, ?_⟩
    show Scripted.read s fd buffer offset = _
    simp only [Scripted.read, hnext, hcap]
  | some cap =>
    refine ⟨min buffer.size cap, Nat.min_le_left _ _, ?_, ?_⟩
    · intro hzero hbuffer
      have hne : cap ≠ 0 := fun h => hzero (congrArg some h)
      omega
    · show Scripted.read s fd buffer offset = _
      simp only [Scripted.read, hnext, hcap]

theorem Scripted.getAttr_of_errors_nil {s : Scripted σ} (h : s.script.errors = [])
    (hstats : s.script.stats = []) (path : String) : StoreClient.getAttr s path =
      ((StoreClient.getAttr s.store path).1, ⟨(StoreClient.getAttr s.store path).2, s.script⟩) := by
  have hnext : s.script.next .getAttr = (none, s.script) := by
    simp only [Script.next, h, List.lookup_nil]
  show Scripted.getAttr s path = _
  simp only [Scripted.getAttr, Scripted.guarded, hnext]
  cases (StoreClient.getAttr s.store path).1 with
  | ok stat => simp only [Except.map, Script.patched, hstats, List.filter_nil, List.foldl_nil]
  | error code => rfl

theorem GivesPrefixes.scripted {handle : Handle} {file : ByteArray} {holds : σ → Prop}
    (h : GivesPrefixes handle file holds) :
    GivesPrefixes handle file fun s : Scripted σ => holds s.store ∧ s.script.errors = [] ∧
      s.script.stats = [] ∧ s.script.readCap ≠ some 0 where
  read := by
    intro s hs buffer offset hbuffer
    obtain ⟨hs, herrors, hstats, hcap⟩ := hs
    obtain ⟨passed, hpassed, hsome, hread⟩ :=
      Scripted.read_of_errors_nil herrors handle.fd buffer offset
    have hfront : (buffer.extract 0 passed).size = passed := by
      simp only [ByteArray.size_extract]
      omega
    obtain ⟨count, front, s', hinner, hs', hcount, hfile, hend, hbytes⟩ :=
      h.read hs (buffer.extract 0 passed) offset (hfront.symm ▸ hsome hcap hbuffer)
    have hkept := StoreClient.size_read s.store handle.fd (buffer.extract 0 passed) offset
    rw [hinner] at hkept hread
    refine ⟨count, overlay buffer 0 front, ⟨s', s.script⟩, hread, ⟨hs', herrors, hstats, hcap⟩,
      by omega, hfile, hend, ?_⟩
    rw [extract_overlay_zero _ _ (by simp only at hkept; omega), hbytes]
  getAttr := by
    intro s hs
    obtain ⟨hs, herrors, hstats, hcap⟩ := hs
    obtain ⟨stat, s', hinner, hs', hsize⟩ := h.getAttr hs
    have hattr := Scripted.getAttr_of_errors_nil herrors hstats handle.path
    rw [hinner] at hattr
    exact ⟨stat, ⟨s', s.script⟩, hattr, ⟨hs', herrors, hstats, hcap⟩, hsize⟩

/-- The descriptor stands for the file at the path, which holds some bytes. -/
structure Memory.Store.ReadableAt (handle : Handle) (file : ByteArray) (s : Store) : Prop where
  isUp : s.isShutDown = false
  readOverreport : s.faults.readOverreport = none
  openFile : ∃ opened node, s.openFile? handle.fd = some opened ∧
    s.tree.lookup handle.path = .ok opened.ino ∧ s.tree.nodes[opened.ino]? = some node ∧
    node.body = .file file
  size : file.size < UInt64.size

theorem Memory.Store.readableAt_of_openPath {s s' : Store} {path : String} {mode : UInt32} {fd : Fd}
    {file : ByteArray} (h : s.openPath path .readOnly mode = (.ok fd, s'))
    (hfaults : s.faults.readOverreport = none) (hbytes : s.contents? path = some file)
    (hsize : file.size < UInt64.size) : ReadableAt ⟨fd, path⟩ file s' := by
  obtain ⟨htree, opened, hopen, hlookup⟩ := openPath_readOnly_eq_ok h
  obtain ⟨hup, -, ino, tree, -, hs'⟩ := openPath_eq_ok h
  rw [Store.contents?, Tree.contents?, hlookup] at hbytes
  simp only at hbytes
  split at hbytes
  · rename_i hnode
    obtain rfl := Option.some.inj hbytes
    refine ⟨?_, ?_, ⟨opened, _, hopen, htree ▸ hlookup, htree ▸ hnode, rfl⟩, hsize⟩
    · rw [hs']
      exact hup
    · rw [hs']
      exact hfaults
  · cases hbytes

theorem Memory.Store.givesPrefixes (handle : Handle) (file : ByteArray) :
    GivesPrefixes handle file (ReadableAt handle file) where
  read := by
    intro s h buffer offset hbuffer
    obtain ⟨opened, ⟨body, mode, atime, mtime, ctime⟩, hopen, hlookup, hnode, rfl⟩ := h.openFile
    have hslice := size_slice file offset buffer.size
    refine ⟨(slice file offset buffer.size).size, overlay buffer 0 (slice file offset buffer.size),
      { s with
        calls.reads := s.calls.reads + 1
        calls.readLog := s.calls.readLog.push (offset, buffer.size) }, ?_,
      ⟨h.isUp, h.readOverreport, ⟨opened, _, hopen, hlookup, hnode, rfl⟩, h.size⟩,
      by omega, by omega, by omega, ?_⟩
    · show s.read handle.fd buffer offset = _
      simp only [openFile?] at hopen
      simp only [Store.read, h.isUp, openFile?, hopen, hnode, h.readOverreport]
      rfl
    · rw [extract_overlay_zero _ _ (Nat.le_refl _), ByteArray.extract_zero_size,
        ← slice_eq_extract]
  getAttr := by
    intro s h
    obtain ⟨opened, node, -, hlookup, hnode, hbody⟩ := h.openFile
    refine ⟨node.stat opened.ino, s, ?_, h, ?_⟩
    · show s.getAttr handle.path = _
      simp only [Store.getAttr, h.isUp, hlookup, hnode]
      rfl
    · rw [Node.stat, hbody]
      exact Nat.mod_eq_of_lt h.size

end VolumeFs
