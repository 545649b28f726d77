import VolumeFs.Store.Client

/-!
# Stores that note their calls

A client that hands every call on to another one and notes what was asked and what came back. The
one behind it may be any client, so that a property of the notes is one of all stores.
-/

namespace VolumeFs

/-- A call and its answer. Of a buffer that is read into only the size is noted. -/
inductive Exchange where
  | openPath (path : String) (flags : OpenFlags) (mode : UInt32) (answer : Except Errno Fd)
  | read (fd : Fd) (size offset : Nat) (answer : Except Errno Nat)
  | write (fd : Fd) (bytes : ByteArray) (offset : Nat) (answer : Except Errno Nat)
  | flush (fd : Fd) (answer : Except Errno Unit)
  | close (fd : Fd) (answer : Except Errno Unit)
  | getAttr (path : String) (answer : Except Errno Stat)
  | mkdirs (path : String) (mode : UInt32) (answer : Except Errno Unit)
  | unlink (path : String) (answer : Except Errno Unit)
  | rmdir (path : String) (answer : Except Errno Unit)
  | rename (source target : String) (answer : Except Errno Unit)
  | readdir (fd : Fd) (limit : Nat) (answer : Except Errno (List Dirent))
  | batchGetAttr (fd : Fd) (inodes : List UInt64) (answer : Except Errno (List Stat))
  | fchmod (fd : Fd) (mode : UInt32) (answer : Except Errno Unit)

theorem concat_split {α : Type} {entries before after : List α} {last entry : α}
    (h : entries ++ [last] = before ++ entry :: after) :
    (entries = before ∧ last = entry ∧ after = []) ∨
      ∃ between, after = between ++ [last] ∧ entries = before ++ entry :: between := by
  rcases List.eq_nil_or_concat after with rfl | ⟨between, other, rfl⟩
  · obtain ⟨hfront, hlast⟩ := List.append_inj' h rfl
    exact .inl ⟨hfront, List.singleton_inj.1 hlast, rfl⟩
  · rw [List.concat_eq_append, ← List.cons_append, ← List.append_assoc] at h
    obtain ⟨hfront, hlast⟩ := List.append_inj' h rfl
    exact .inr ⟨between, by rw [List.concat_eq_append, List.singleton_inj.1 hlast], hfront⟩

/-- A store and what was exchanged with it so far, the first call first. -/
structure Traced (σ : Type) where
  store : σ
  exchanges : List Exchange := []

namespace Traced

variable {σ α : Type} {t t' : Traced σ}

def noted (t : Traced σ) (exchange : Except Errno α → Exchange) (outcome : Except Errno α × σ) :
    Except Errno α × Traced σ :=
  (outcome.1, ⟨outcome.2, t.exchanges ++ [exchange outcome.1]⟩)

theorem noted_eq_iff {exchange : Except Errno α → Exchange} {outcome : Except Errno α × σ}
    {answer : Except Errno α} : t.noted exchange outcome = (answer, t') ↔
      ∃ s', outcome = (answer, s') ∧ t' = ⟨s', t.exchanges ++ [exchange answer]⟩ := by
  obtain ⟨answer', s'⟩ := outcome
  constructor
  · rintro ⟨⟩
    exact ⟨s', rfl, rfl⟩
  · rintro ⟨_, ⟨⟩, rfl⟩
    rfl

variable [StoreClient σ]

def read (t : Traced σ) (fd : Fd) (buffer : ByteArray) (offset : Nat) :
    Except Errno Nat × ByteArray × Traced σ :=
  let (answer, held, store) := StoreClient.read t.store fd buffer offset
  (answer, held, ⟨store, t.exchanges ++ [.read fd buffer.size offset answer]⟩)

instance : StoreClient (Traced σ) where
  openPath t path flags mode :=
    t.noted (.openPath path flags mode) (StoreClient.openPath t.store path flags mode)
  read
  write t fd bytes offset :=
    t.noted (.write fd bytes offset) (StoreClient.write t.store fd bytes offset)
  flush t fd := t.noted (.flush fd) (StoreClient.flush t.store fd)
  close t fd := t.noted (.close fd) (StoreClient.close t.store fd)
  getAttr t path := t.noted (.getAttr path) (StoreClient.getAttr t.store path)
  mkdirs t path mode := t.noted (.mkdirs path mode) (StoreClient.mkdirs t.store path mode)
  unlink t path := t.noted (.unlink path) (StoreClient.unlink t.store path)
  rmdir t path := t.noted (.rmdir path) (StoreClient.rmdir t.store path)
  rename t source target :=
    t.noted (.rename source target) (StoreClient.rename t.store source target)
  readdir t fd limit := t.noted (.readdir fd limit) (StoreClient.readdir t.store fd limit)
  batchGetAttr t fd inodes :=
    t.noted (.batchGetAttr fd inodes) (StoreClient.batchGetAttr t.store fd inodes)
  fchmod t fd mode := t.noted (.fchmod fd mode) (StoreClient.fchmod t.store fd mode)
  shutdown t := { t with store := StoreClient.shutdown t.store }
  walkBound t := StoreClient.walkBound t.store
  size_read t fd buffer offset := StoreClient.size_read t.store fd buffer offset

variable {fd : Fd}

theorem write_eq_iff {bytes : ByteArray} {offset : Nat} {answer : Except Errno Nat} :
    StoreClient.write t fd bytes offset = (answer, t') ↔
      ∃ s', StoreClient.write t.store fd bytes offset = (answer, s') ∧
        t' = ⟨s', t.exchanges ++ [.write fd bytes offset answer]⟩ := noted_eq_iff

theorem flush_eq_iff {answer : Except Errno Unit} :
    StoreClient.flush t fd = (answer, t') ↔ ∃ s', StoreClient.flush t.store fd = (answer, s') ∧
      t' = ⟨s', t.exchanges ++ [.flush fd answer]⟩ := noted_eq_iff

theorem close_eq_iff {answer : Except Errno Unit} :
    StoreClient.close t fd = (answer, t') ↔ ∃ s', StoreClient.close t.store fd = (answer, s') ∧
      t' = ⟨s', t.exchanges ++ [.close fd answer]⟩ := noted_eq_iff

theorem close_of_eq {s' : σ} {answer : Except Errno Unit}
    (h : StoreClient.close t.store fd = (answer, s')) :
    StoreClient.close t fd = (answer, ⟨s', t.exchanges ++ [.close fd answer]⟩) :=
  close_eq_iff.2 ⟨s', h, rfl⟩

theorem readdir_of_eq {s' : σ} {limit : Nat} {answer : Except Errno (List Dirent)}
    (h : StoreClient.readdir t.store fd limit = (answer, s')) :
    StoreClient.readdir t fd limit = (answer, ⟨s', t.exchanges ++ [.readdir fd limit answer]⟩) :=
  noted_eq_iff.2 ⟨s', h, rfl⟩

theorem batchGetAttr_of_eq {s' : σ} {inodes : List UInt64} {answer : Except Errno (List Stat)}
    (h : StoreClient.batchGetAttr t.store fd inodes = (answer, s')) :
    StoreClient.batchGetAttr t fd inodes =
      (answer, ⟨s', t.exchanges ++ [.batchGetAttr fd inodes answer]⟩) :=
  noted_eq_iff.2 ⟨s', h, rfl⟩

end Traced
end VolumeFs
