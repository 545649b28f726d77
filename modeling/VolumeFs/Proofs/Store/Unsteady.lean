import VolumeFs.Bytes
import VolumeFs.Proofs.Store.Prefixes

/-!
# Stores of one file whose reads may fail

A store that holds one file, which does not change. What becomes of each read is laid down
beforehand: it fails, it claims more bytes than there was room for, or it gives some of the bytes
that there are. Whatever it comes to, the rest of the buffer may be overwritten.
-/

namespace VolumeFs

open Bytes

/-- What becomes of a read, and what it leaves in the buffer where it puts no bytes of the file. -/
inductive ReadFate where
  | refused (code : Errno) (left : ByteArray)
  /-- The answer is a greater number of bytes than the buffer has. -/
  | exceeded (excess : Nat) (left : ByteArray)
  /-- At most so many bytes of the file are given, and the answer is how many they are. -/
  | given (limit : Nat) (left : ByteArray)

/-- The read neither fails nor claims too much. -/
def ReadFate.isTruthful : ReadFate → Bool
  | given _ _ => true
  | _ => false

/-- A store of one file. When nothing is laid down for a read any more, it gives all that there
is. -/
structure Unsteady where
  file : ByteArray
  /-- The attributes under which the file is found. -/
  stat : Stat
  fates : List ReadFate

namespace Unsteady

def scribbled (buffer left : ByteArray) : ByteArray :=
  overlay buffer 0 (left.extract 0 buffer.size)

@[simp] theorem size_scribbled (buffer left : ByteArray) :
    (scribbled buffer left).size = buffer.size := by
  apply size_overlay
  rw [ByteArray.size_extract]
  omega

/-- A read of at most so many bytes. -/
def give (s : Unsteady) (buffer : ByteArray) (offset limit : Nat) (left : ByteArray) :
    Except Errno Nat × ByteArray × Unsteady :=
  let piece := slice s.file offset (min limit buffer.size)
  (.ok piece.size, overlay (scribbled buffer left) 0 piece, s)

def read (s : Unsteady) (_fd : Fd) (buffer : ByteArray) (offset : Nat) :
    Except Errno Nat × ByteArray × Unsteady :=
  match s.fates with
  | [] => s.give buffer offset buffer.size .empty
  | .refused code left :: fates => (.error code, scribbled buffer left, { s with fates })
  | .exceeded excess left :: fates =>
    (.ok (buffer.size + excess + 1), scribbled buffer left, { s with fates })
  | .given limit left :: fates => { s with fates }.give buffer offset limit left

private theorem size_read (s : Unsteady) (fd : Fd) (buffer : ByteArray) (offset : Nat) :
    (s.read fd buffer offset).2.1.size = buffer.size := by
  have hgive (s : Unsteady) (limit : Nat) (left : ByteArray) :
      (s.give buffer offset limit left).2.1.size = buffer.size := by
    rw [give, size_overlay, size_scribbled]
    rw [size_scribbled, size_slice]
    omega
  unfold read
  split
  · exact hgive _ _ _
  · exact size_scribbled _ _
  · exact size_scribbled _ _
  · exact hgive _ _ _

/-- A call for which the store of one file has no use. -/
def refused {α : Type} (s : Unsteady) : Except Errno α × Unsteady := (.error .ebadf, s)

instance : StoreClient Unsteady where
  openPath s _ _ _ := s.refused
  read
  write s _ _ _ := s.refused
  flush s _ := s.refused
  close s _ := s.refused
  getAttr s _ := (.ok s.stat, s)
  mkdirs s _ _ := s.refused
  unlink s _ := s.refused
  rmdir s _ := s.refused
  rename s _ _ := s.refused
  readdir s _ _ := s.refused
  batchGetAttr s _ _ := s.refused
  fchmod s _ _ := s.refused
  shutdown s := s
  walkBound s := s.fates.length
  size_read

/-- The same store without the reads that fail or claim too much. -/
def steadied (s : Unsteady) : Unsteady := { s with fates := s.fates.filter ReadFate.isTruthful }

private theorem give_eq (s : Unsteady) (buffer : ByteArray) (offset limit : Nat)
    (left : ByteArray) :
    let piece := slice s.file offset (min limit buffer.size)
    ∃ bytes, s.give buffer offset limit left = (.ok piece.size, bytes, s) ∧
      piece.size ≤ buffer.size ∧ bytes.size = buffer.size ∧
      bytes.extract 0 piece.size = piece := by
  intro piece
  have hpiece : piece.size ≤ buffer.size := by
    rw [size_slice]
    omega
  refine ⟨_, rfl, hpiece, ?_, ?_⟩
  · rw [size_overlay, size_scribbled]
    rwa [size_scribbled, Nat.zero_add]
  · rw [extract_overlay_zero _ _ (Nat.le_refl _), ByteArray.extract_zero_size]

/-- A read fails or claims too much, and the store without such reads is none the wiser. Or it
gives the same bytes there, whatever the two buffers held. -/
theorem read_cases (s : Unsteady) (fd : Fd) {buffer buffer' : ByteArray}
    (hsize : buffer'.size = buffer.size) (offset : Nat) :
    (∃ answer bytes s₁, StoreClient.read s fd buffer offset = (answer, bytes, s₁) ∧
      bytes.size = buffer.size ∧ s₁.steadied = s.steadied ∧
        ∀ count, answer = .ok count → buffer.size < count) ∨
    ∃ count bytes bytes' s₁, StoreClient.read s fd buffer offset = (.ok count, bytes, s₁) ∧
      StoreClient.read s.steadied fd buffer' offset = (.ok count, bytes', s₁.steadied) ∧
      count ≤ buffer.size ∧ bytes.size = buffer.size ∧ bytes'.size = buffer.size ∧
      bytes'.extract 0 count = bytes.extract 0 count := by
  have hgive (s : Unsteady) (limit : Nat) (left : ByteArray) :
      ∃ count bytes bytes', s.give buffer offset limit left = (.ok count, bytes, s) ∧
        s.steadied.give buffer' offset limit left = (.ok count, bytes', s.steadied) ∧
        count ≤ buffer.size ∧ bytes.size = buffer.size ∧ bytes'.size = buffer.size ∧
        bytes'.extract 0 count = bytes.extract 0 count := by
    obtain ⟨bytes, hbytes, hcount, hkept, hpiece⟩ := s.give_eq buffer offset limit left
    obtain ⟨bytes', hbytes', -, hkept', hpiece'⟩ := s.steadied.give_eq buffer' offset limit left
    rw [hsize] at hbytes' hpiece' hkept'
    exact ⟨_, bytes, bytes', hbytes, hbytes', hcount, hkept, hkept', hpiece'.trans hpiece.symm⟩
  obtain ⟨file, stat, fates⟩ := s
  cases fates with
  | nil =>
    obtain ⟨count, bytes, bytes', hbytes, hbytes', hfacts⟩ :=
      hgive ⟨file, stat, []⟩ buffer.size .empty
    refine .inr ⟨count, bytes, bytes', _, hbytes, ?_, hfacts⟩
    rw [← hsize] at hbytes'
    exact hbytes'
  | cons fate fates =>
    cases fate with
    | refused code left =>
      exact .inl ⟨.error code, _, ⟨file, stat, fates⟩, rfl, size_scribbled _ _, rfl, nofun⟩
    | exceeded excess left =>
      refine .inl ⟨_, _, ⟨file, stat, fates⟩, rfl, size_scribbled _ _, rfl, ?_⟩
      rintro count ⟨⟩
      omega
    | given limit left =>
      obtain ⟨count, bytes, bytes', hbytes, hbytes', hfacts⟩ :=
        hgive ⟨file, stat, fates⟩ limit left
      exact .inr ⟨count, bytes, bytes', _, hbytes, hbytes', hfacts⟩

end Unsteady
end VolumeFs
