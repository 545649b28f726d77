import Mathlib.Algebra.Group.Nat.Defs
import Mathlib.Data.List.Nodup
import Mathlib.Data.List.Perm.Subperm
import VolumeFs.Proofs.Store.Reachable

/-!
# Descriptors of a store

What the calls of a store do to its open files. Besides the calls that name a descriptor only the
one that gives it out changes what is behind it. The counter of descriptors wraps around: a number
comes back, but not before all others were given out.
-/

namespace VolumeFs

namespace Fd

/-- The descriptor that is given out so many steps after the counter had a value. -/
def after (first : Int32) (steps : Nat) : Fd := ⟨(first + Int32.ofNat steps).toInt⟩

theorem after_zero (first : Int32) : after first 0 = ⟨first.toInt⟩ :=
  congrArg (fun word : Int32 => (⟨word.toInt⟩ : Fd)) (Int32.add_zero first)

theorem after_add (first : Int32) (m n : Nat) :
    after (first + Int32.ofNat m) n = after first (m + n) := by
  rw [after, after, Int32.ofNat_add, Int32.add_assoc]

theorem after_ne {first : Int32} {m n : Nat} (h : m < n) (hn : n < m + Int32.size) :
    after first m ≠ after first n := by
  intro heq
  have hword := congrArg Int32.toBitVec
    ((Int32.add_right_inj first).1 (Int32.toInt_inj.1 (congrArg Fd.number heq)))
  rw [Int32.toBitVec_ofNat', Int32.toBitVec_ofNat'] at hword
  have hmod := congrArg BitVec.toNat hword
  rw [BitVec.toNat_ofNat, BitVec.toNat_ofNat] at hmod
  have hsize : Int32.size = 2 ^ 32 := rfl
  omega

/-- The counter of descriptors begins with three. It is ahead of a number until it overflows. -/
theorem number_after (h : n + 3 < 2 ^ 31) : (after 3 n).number = n + 3 := by
  have hsum : (3 : Int32) + Int32.ofNat n = Int32.ofNat (n + 3) :=
    (Int32.add_comm _ _).trans (Int32.ofNat_add n 3).symm
  rw [after, hsum, Int32.toInt_ofNat_of_lt h]
  rfl

end Fd

namespace Memory

/-- How many descriptors an operation gives out. -/
def Operation.given (s : Store) : Operation → Nat
  | openPath path flags mode => if (s.openPath path flags mode).1.isOk then 1 else 0
  | _ => 0

namespace Store

private theorem compare_number_ne {fd other : Fd} (h : fd ≠ other) :
    compare fd.number other.number ≠ .eq := by
  rw [Ne, Std.compare_eq_iff_eq]
  intro hnumber
  exact h (congrArg Fd.mk hnumber)

section Table

variable {s s' : Store} {fd : Fd} {file : OpenFile}

@[simp] theorem openFile?_new (clock : Clock) (fd : Fd) : (Store.new clock).openFile? fd = none :=
  Std.TreeMap.getElem?_emptyc

theorem openFile?_of_insert {number : Int}
    (h : s'.openFiles = s.openFiles.insert number file) (other : Fd) :
    s'.openFile? other = if other = ⟨number⟩ then some file else s.openFile? other := by
  rw [openFile?, h]
  split
  · rename_i hother
    rw [hother, Std.TreeMap.getElem?_insert_self]
  · rename_i hother
    rw [Std.TreeMap.getElem?_insert, if_neg (compare_number_ne (Ne.symm hother)), openFile?]

theorem openFile?_of_erase (h : s'.openFiles = s.openFiles.erase fd.number) (other : Fd) :
    s'.openFile? other = if other = fd then none else s.openFile? other := by
  rw [openFile?, h]
  split
  · rename_i hother
    rw [hother, Std.TreeMap.getElem?_erase_self]
  · rename_i hother
    rw [Std.TreeMap.getElem?_erase, if_neg (compare_number_ne (Ne.symm hother)), openFile?]

theorem openFile?_of_modify {update : OpenFile → OpenFile}
    (h : s'.openFiles = s.openFiles.modify fd.number update) (other : Fd) :
    s'.openFile? other = if other = fd then (s.openFile? fd).map update else s.openFile? other := by
  rw [openFile?, h]
  split
  · rename_i hother
    rw [hother, Std.TreeMap.getElem?_modify_self, openFile?]
  · rename_i hother
    rw [Std.TreeMap.getElem?_modify, if_neg (compare_number_ne (Ne.symm hother)), openFile?]

@[simp] theorem openFile?_write (s : Store) (fd : Fd) (bytes : ByteArray) (offset : Nat)
    (other : Fd) : (s.write fd bytes offset).2.openFile? other = s.openFile? other := by
  simp only [write]
  repeat' split
  all_goals rfl

@[simp] theorem openFile?_flush (s : Store) (fd other : Fd) :
    (s.flush fd).2.openFile? other = s.openFile? other := by
  simp only [flush]
  repeat' split
  all_goals rfl

/-- Nothing is behind a descriptor that was given back, whether it was open or not. -/
theorem openFile?_close (s : Store) (fd other : Fd) :
    (s.close fd).2.openFile? other = if other = fd then none else s.openFile? other := by
  simp only [Store.close]
  split
  · rename_i hnone
    split
    · rename_i hother
      rwa [hother]
    · rfl
  · split <;> exact openFile?_of_erase rfl other

theorem openDescriptors_le
    (h : ∀ fd, (s'.openFile? fd).isSome = true → (s.openFile? fd).isSome = true) :
    s'.openDescriptors ≤ s.openDescriptors := by
  have hsubset : s'.openFiles.keys ⊆ s.openFiles.keys := by
    intro number hnumber
    rw [Std.TreeMap.mem_keys, Std.TreeMap.mem_iff_isSome_getElem?] at hnumber ⊢
    exact h ⟨number⟩ hnumber
  have hlength := (Std.TreeMap.nodup_keys.subperm hsubset).length_le
  rwa [Std.TreeMap.length_keys, Std.TreeMap.length_keys] at hlength

end Table

/-- How a call changes what is behind a descriptor, and how many it gives out. -/
inductive Descriptor (s : Store) (other : Fd) : Operation → Option OpenFile → Nat → Prop where
  | same {op} : Descriptor s other op (s.openFile? other) 0
  | besideOpened {path flags mode} (h : other ≠ ⟨s.nextFd.toInt⟩) :
      Descriptor s other (.openPath path flags mode) (s.openFile? other) 1
  | opened {path flags mode file} (h : other = ⟨s.nextFd.toInt⟩) :
      Descriptor s other (.openPath path flags mode) (some file) 1
  | closed : Descriptor s other (.close other) none 0
  | listed {limit file cursor} (h : s.openFile? other = some file) :
      Descriptor s other (.readdir other limit) (some { file with cursor }) 0

private theorem descriptor_openPath (s : Store) (other : Fd) (path : String) (flags : OpenFlags)
    (mode : UInt32) :
    Descriptor s other (.openPath path flags mode) ((s.openPath path flags mode).2.openFile? other)
      ((Operation.openPath path flags mode).given s) := by
  rw [Operation.given]
  cases h : s.openPath path flags mode with
  | mk answer s' =>
    cases answer with
    | error e => rcases openPath_eq_error h with rfl | rfl <;> exact .same
    | ok fd =>
      obtain ⟨-, -, ino, tree, -, hs'⟩ := openPath_eq_ok h
      rw [openFile?_of_insert (congrArg Store.openFiles hs')]
      split
      · exact .opened ‹_›
      · exact .besideOpened ‹_›

private theorem descriptor_close (s : Store) (fd other : Fd) :
    Descriptor s other (.close fd) ((s.close fd).2.openFile? other) 0 := by
  rw [openFile?_close]
  split
  · rename_i hother
    rw [hother]
    exact .closed
  · exact .same

private theorem descriptor_readdir (s : Store) (fd other : Fd) (limit : Nat) :
    Descriptor s other (.readdir fd limit) ((s.readdir fd limit).2.openFile? other) 0 := by
  have hread : (s.readdir fd limit).2.openFiles = s.openFiles ∨
      ∃ cursor, (s.readdir fd limit).2.openFiles =
        s.openFiles.modify fd.number fun f => { f with cursor } := by
    simp only [Store.readdir]
    repeat' split
    all_goals first
      | exact .inl rfl
      | exact .inr ⟨_, rfl⟩
  rcases hread with hfiles | ⟨cursor, hfiles⟩
  · rw [openFile?, hfiles]
    exact .same
  · rw [openFile?_of_modify hfiles]
    split
    · rename_i hother
      subst hother
      cases hfile : s.openFile? other with
      | none =>
        have hsame : Descriptor s other (.readdir other limit) (s.openFile? other) 0 := .same
        rwa [hfile] at hsame
      | some file => exact .listed hfile
    · exact .same

end Store

namespace Operation

open Store in
theorem descriptor_on (s : Store) (op : Operation) (other : Fd) :
    Descriptor s other op ((op.on s).openFile? other) (op.given s) := by
  have hsame {op : Operation} {s' : Store} (hfiles : s'.openFiles = s.openFiles) :
      Descriptor s other op (s'.openFile? other) 0 := by
    rw [openFile?, hfiles]
    exact .same
  cases op with
  | openPath path flags mode => exact descriptor_openPath s other path flags mode
  | close fd => exact descriptor_close s fd other
  | readdir fd limit => exact descriptor_readdir s fd other limit
  | read | write | flush | getAttr | mkdirs | unlink | rmdir | rename | batchGetAttr | fchmod =>
    apply hsame
    simp only [on, Store.read, Store.write, Store.flush, Store.getAttr, Store.mkdirs,
      Store.unlink, Store.rmdir, Store.rename, Store.batchGetAttr, Store.fchmod]
    repeat' split
    all_goals rfl
  | shutdown | putFile | putDirectory | setFaults | setClock | clearCalls => exact hsame rfl

theorem nextFd_on (s : Store) (op : Operation) :
    (op.on s).nextFd = s.nextFd + Int32.ofNat (op.given s) := by
  have hnone : s.nextFd + Int32.ofNat 0 = s.nextFd := Int32.add_zero _
  cases op with
  | openPath path flags mode =>
    rw [on, given]
    cases h : s.openPath path flags mode with
    | mk answer s' =>
      cases answer with
      | error e => rcases Store.openPath_eq_error h with rfl | rfl <;> exact hnone.symm
      | ok fd =>
        obtain ⟨-, -, ino, tree, -, rfl⟩ := Store.openPath_eq_ok h
        rfl
  | shutdown | putFile | putDirectory | setFaults | setClock | clearCalls => exact hnone.symm
  | _ =>
    refine Eq.trans ?_ hnone.symm
    simp only [on, Store.read, Store.write, Store.flush, Store.close, Store.getAttr, Store.mkdirs,
      Store.unlink, Store.rmdir, Store.rename, Store.readdir, Store.batchGetAttr, Store.fchmod]
    repeat' split
    all_goals rfl

end Operation

/-- Operations lead from a store to another one and give out so many descriptors on the way. -/
inductive GivesOut (s : Store) : Nat → Store → Prop where
  | refl : GivesOut s 0 s
  | step {n s'} (op : Operation) : GivesOut s n s' → GivesOut s (n + op.given s') (op.on s')

/-- Every reachable store has given out so many descriptors since it was new. -/
theorem Reachable.exists_givesOut {s : Store} (hs : Reachable s) :
    ∃ clock n, GivesOut (.new clock) n s := by
  induction hs with
  | new clock => exact ⟨clock, 0, .refl⟩
  | step op _ ih =>
    obtain ⟨clock, n, h⟩ := ih
    exact ⟨clock, _, h.step op⟩

namespace GivesOut

variable {s s' : Store} {clock : Clock} {n : Nat}

theorem trans {s'' : Store} {m : Nat} (h : GivesOut s n s') (h' : GivesOut s' m s'') :
    GivesOut s (n + m) s'' := by
  induction h' with
  | refl => exact h
  | step op _ ih =>
    rw [← Nat.add_assoc]
    exact ih.step op

theorem nextFd_eq (h : GivesOut s n s') : s'.nextFd = s.nextFd + Int32.ofNat n := by
  induction h with
  | refl => exact (Int32.add_zero _).symm
  | step op _ ih => rw [op.nextFd_on, ih, Int32.ofNat_add, Int32.add_assoc]

/-- After as many openings as there are numbers the counter is where it was, so that the next one
gives out the number of the first again. -/
theorem nextFd_eq_of_size (h : GivesOut s Int32.size s') : s'.nextFd = s.nextFd := by
  have hround : Int32.ofNat Int32.size = 0 := by decide
  rw [h.nextFd_eq, hround, Int32.add_zero]

/-- What is open was open before, or was given out since. -/
theorem exists_after (h : GivesOut s n s') {fd : Fd} {file : OpenFile}
    (hfile : s'.openFile? fd = some file) :
    s.openFile? fd ≠ none ∨ ∃ m < n, fd = .after s.nextFd m := by
  induction h generalizing file with
  | refl =>
    rw [hfile]
    exact .inl nofun
  | @step n s' op hgives ih =>
    have hon := op.descriptor_on s' fd
    rw [hfile] at hon
    generalize op.given s' = given at hon ⊢
    generalize hbehind : some file = behind at hon
    have hearlier {file : OpenFile} (hfile : s'.openFile? fd = some file) :
        s.openFile? fd ≠ none ∨ ∃ m < n + given, fd = .after s.nextFd m :=
      (ih hfile).imp_right fun ⟨m, hm, hfd⟩ => ⟨m, Nat.lt_add_right given hm, hfd⟩
    cases hon with
    | same => exact hearlier hbehind.symm
    | besideOpened => exact hearlier hbehind.symm
    | opened hfd =>
      refine .inr ⟨n, Nat.lt_succ_self n, ?_⟩
      rw [hfd, hgives.nextFd_eq]
      rfl
    | closed => cases hbehind
    | listed hlisted => exact hearlier hlisted

theorem nextFd_of_new (h : GivesOut (.new clock) n s) : s.nextFd = 3 + Int32.ofNat n := h.nextFd_eq

theorem exists_after_of_new (h : GivesOut (.new clock) n s) {fd : Fd} {file : OpenFile}
    (hfile : s.openFile? fd = some file) : ∃ m < n, fd = .after 3 m := by
  rcases h.exists_after hfile with hopen | hgiven
  · exact absurd (Store.openFile?_new clock fd) hopen
  · exact hgiven

/-- Of a new store all numbers are free that were not given out. -/
theorem openFile?_after (h : GivesOut (.new clock) n s) {k : Nat} (hk : n + k < Int32.size) :
    s.openFile? (.after s.nextFd k) = none := by
  cases hfile : s.openFile? (.after s.nextFd k) with
  | none => rfl
  | some file =>
    obtain ⟨m, hm, hfd⟩ := h.exists_after_of_new hfile
    rw [h.nextFd_of_new, Fd.after_add] at hfd
    exact absurd hfd.symm (Fd.after_ne (by omega) (by omega))

end GivesOut

end Memory
end VolumeFs
