import Mathlib.Algebra.BigOperators.Group.Multiset.Basic
import VolumeFs.Handle
import VolumeFs.Proofs.Store.Descriptors
import VolumeFs.Store.Scripted

/-!
# Books of descriptors

Opening an entry adds one open descriptor, closing one takes it away, and no other call changes
which descriptors are open. Whoever works with a store and uses only descriptors of its own can
therefore be followed by what it holds, and what others hold stays as it was.
-/

namespace VolumeFs

/-- A relation between a store and the descriptors that those who work with it hold. -/
structure Book {σ : Type} [StoreClient σ] (opened : Multiset Fd → σ → Prop) : Prop where
  openPath_ok : ∀ {fds s s' path flags mode fd}, opened fds s →
    StoreClient.openPath s path flags mode = (.ok fd, s') → opened (fd ::ₘ fds) s'
  openPath_error : ∀ {fds s s' path flags mode code}, opened fds s →
    StoreClient.openPath s path flags mode = (.error code, s') → opened fds s'
  close : ∀ {fd fds s}, opened (fd ::ₘ fds) s → opened fds (StoreClient.close s fd).2
  read : ∀ {fd fds s} buffer offset, fd ∈ fds → opened fds s →
    opened fds (StoreClient.read s fd buffer offset).2.2
  write : ∀ {fd fds s} bytes offset, fd ∈ fds → opened fds s →
    opened fds (StoreClient.write s fd bytes offset).2
  flush : ∀ {fd fds s}, fd ∈ fds → opened fds s → opened fds (StoreClient.flush s fd).2
  readdir : ∀ {fd fds s} limit, fd ∈ fds → opened fds s →
    opened fds (StoreClient.readdir s fd limit).2
  batchGetAttr : ∀ {fd fds s} inodes, fd ∈ fds → opened fds s →
    opened fds (StoreClient.batchGetAttr s fd inodes).2
  fchmod : ∀ {fd fds s} mode, fd ∈ fds → opened fds s →
    opened fds (StoreClient.fchmod s fd mode).2
  getAttr : ∀ {fds s} path, opened fds s → opened fds (StoreClient.getAttr s path).2
  mkdirs : ∀ {fds s} path mode, opened fds s → opened fds (StoreClient.mkdirs s path mode).2
  unlink : ∀ {fds s} path, opened fds s → opened fds (StoreClient.unlink s path).2
  rmdir : ∀ {fds s} path, opened fds s → opened fds (StoreClient.rmdir s path).2
  rename : ∀ {fds s} source target, opened fds s →
    opened fds (StoreClient.rename s source target).2
  shutdown : ∀ {fds s}, opened fds s → opened fds (StoreClient.shutdown s)

inductive Outcome {σ α ε : Type} (succeeds : α → σ → Prop) (fails : σ → Prop) :
    Except ε α × σ → Prop where
  | ok {a s} (h : succeeds a s) : Outcome succeeds fails (.ok a, s)
  | error {e s} (h : fails s) : Outcome succeeds fails (.error e, s)

namespace Book

section Handles

variable {σ : Type} [StoreClient σ] {opened : Multiset Fd → σ → Prop} {fds : Multiset Fd} {s : σ}

theorem openHandle (h : Book opened) (hs : opened fds s) (path : String) (flags : OpenFlags)
    (mode : UInt32) : Outcome (fun handle => opened (handle.fd ::ₘ fds)) (opened fds)
      (Handle.openPath s path flags mode) := by
  unfold Handle.openPath
  split
  · rename_i hopen
    exact .ok (h.openPath_ok hs hopen)
  · rename_i hopen
    exact .error (h.openPath_error hs hopen)

theorem closeHandle (h : Book opened) {handle : Handle} (hs : opened (handle.fd ::ₘ fds) s) :
    opened fds (handle.close s).2 := h.close hs

end Handles

end Book

section Scripts

variable {σ α : Type} {opened : Multiset Fd → σ → Prop} {fds : Multiset Fd}

private theorem Scripted.guarded_eq {s s' : Scripted σ} {call : Call}
    {forward : σ → Except Errno α × σ} {answer : Except Errno α}
    (h : s.guarded call forward = (answer, s')) :
    (∃ code, answer = .error code ∧ s'.store = s.store) ∨
      ∃ store, forward s.store = (answer, store) ∧ s' = ⟨store, (s.script.next call).2⟩ := by
  unfold Scripted.guarded at h
  split at h
  · cases h
    exact .inl ⟨_, rfl, rfl⟩
  · rename_i script hnext
    cases h
    exact .inr ⟨_, rfl, by rw [hnext]⟩

private theorem Scripted.opened_guarded {s : Scripted σ} (hs : opened fds s.store) (call : Call)
    (forward : σ → Except Errno α × σ) (hforward : opened fds (forward s.store).2) :
    opened fds (s.guarded call forward).2.store := by
  cases h : s.guarded call forward with
  | mk answer s' =>
    rcases Scripted.guarded_eq h with ⟨-, -, hsame⟩ | ⟨store, hanswer, rfl⟩
    · rwa [hsame]
    · rwa [hanswer] at hforward

/-- A script changes nothing of what is open: an opening that it makes fail opens nothing, and a
closing that it makes fail has given the descriptor back. -/
theorem Book.scripted [StoreClient σ] (h : Book opened) :
    Book fun fds (s : Scripted σ) => opened fds s.store where
  openPath_ok := by
    intro fds s s' path flags mode fd hs hopen
    rcases Scripted.guarded_eq hopen with ⟨code, hcode, -⟩ | ⟨store, hforward, rfl⟩
    · cases hcode
    · exact h.openPath_ok hs hforward
  openPath_error := by
    intro fds s s' path flags mode code hs hopen
    rcases Scripted.guarded_eq hopen with ⟨-, -, hsame⟩ | ⟨store, hforward, rfl⟩
    · rwa [hsame]
    · exact h.openPath_error hs hforward
  close := by
    intro fd fds s hs
    have hclose := h.close hs
    show opened fds (s.close fd).2.store
    unfold Scripted.close
    generalize StoreClient.close s.store fd = result at hclose ⊢
    dsimp only
    split <;> exact hclose
  read := by
    intro fd fds s buffer offset hfd hs
    show opened fds (s.read fd buffer offset).2.2.store
    unfold Scripted.read
    split
    · exact hs
    · exact h.read _ _ hfd hs
  write bytes offset hfd hs := Scripted.opened_guarded hs .write
    (StoreClient.write · _ bytes offset) (h.write bytes offset hfd hs)
  flush hfd hs := Scripted.opened_guarded hs .flush _ (h.flush hfd hs)
  readdir limit hfd hs := Scripted.opened_guarded hs .readdir _ (h.readdir limit hfd hs)
  batchGetAttr inodes hfd hs := Scripted.opened_guarded hs .batchGetAttr
    (StoreClient.batchGetAttr · _ inodes) (h.batchGetAttr inodes hfd hs)
  fchmod mode hfd hs := Scripted.opened_guarded hs .fchmod _ (h.fchmod mode hfd hs)
  getAttr path hs := Scripted.opened_guarded hs .getAttr (StoreClient.getAttr · path)
    (h.getAttr path hs)
  mkdirs path mode hs := Scripted.opened_guarded hs .mkdirs _ (h.mkdirs path mode hs)
  unlink path hs := Scripted.opened_guarded hs .unlink _ (h.unlink path hs)
  rmdir path hs := Scripted.opened_guarded hs .rmdir _ (h.rmdir path hs)
  rename source target hs := Scripted.opened_guarded hs .rename _ (h.rename source target hs)
  shutdown hs := h.shutdown hs

end Scripts

namespace Memory

/-- The descriptors were given out and not given back. The calls that close a descriptor have closed
one each: all that were given out are held or were closed by one call. No two of them are the same,
and all of them are open, as long as the numbers have not come back. -/
structure Store.Opened (s : Store) (fds : Multiset Fd) : Prop where
  mem_of_isSome : ∀ fd, (s.openFile? fd).isSome = true → fd ∈ fds
  nextFd_eq : s.nextFd = 3 + Int32.ofNat (s.calls.closes + Multiset.card fds)
  le_opens : s.calls.closes + Multiset.card fds ≤ s.calls.opens
  exists_after : ∀ fd ∈ fds, ∃ k < s.calls.closes + Multiset.card fds, fd = .after 3 k
  isSome_of_mem : s.calls.opens ≤ Int32.size → ∀ fd ∈ fds, (s.openFile? fd).isSome = true
  nodup : s.calls.opens ≤ Int32.size → fds.Nodup

def Operation.KeepsDescriptors : Operation → Prop
  | openPath .. => False
  | close _ => False
  | clearCalls => False
  | _ => True

variable {s s' : Store} {fds : Multiset Fd} {fd other : Fd} {op : Operation}

private theorem Operation.KeepsDescriptors.openFile?_on (h : op.KeepsDescriptors)
    (hlisted : ∀ limit, op ≠ .readdir other limit) :
    (op.on s).openFile? other = s.openFile? other := by
  have hon := op.descriptor_on s other
  generalize (op.on s).openFile? other = behind at hon ⊢
  generalize op.given s = given at hon
  cases hon with
  | same => rfl
  | besideOpened | opened | closed => exact h.elim
  | listed => exact absurd rfl (hlisted _)

private theorem Operation.KeepsDescriptors.isSome_openFile?_on (h : op.KeepsDescriptors)
    (other : Fd) :
    ((op.on s).openFile? other).isSome = (s.openFile? other).isSome := by
  have hon := op.descriptor_on s other
  generalize (op.on s).openFile? other = behind at hon ⊢
  generalize op.given s = given at hon
  cases hon with
  | same => rfl
  | besideOpened | opened | closed => exact h.elim
  | listed hfile =>
    rw [hfile]
    rfl

private theorem Operation.KeepsDescriptors.nextFd_on (h : op.KeepsDescriptors) :
    (op.on s).nextFd = s.nextFd := by
  rw [op.nextFd_on]
  cases op with
  | openPath => exact h.elim
  | _ => exact Int32.add_zero _

private theorem Operation.KeepsDescriptors.calls_on (h : op.KeepsDescriptors) :
    (op.on s).calls.opens = s.calls.opens ∧ (op.on s).calls.closes = s.calls.closes := by
  cases op with
  | openPath | close | clearCalls => exact h.elim
  | shutdown | putFile | putDirectory | setFaults | setClock => exact ⟨rfl, rfl⟩
  | _ =>
    simp only [on, Store.read, Store.write, Store.flush, Store.getAttr, Store.mkdirs,
      Store.unlink, Store.rmdir, Store.rename, Store.readdir, Store.batchGetAttr, Store.fchmod]
    repeat' split
    all_goals exact ⟨rfl, rfl⟩

theorem Store.Opened.on (hs : s.Opened fds) (op : Operation) (h : op.KeepsDescriptors) :
    (op.on s).Opened fds := by
  obtain ⟨hopens, hcloses⟩ := h.calls_on (s := s)
  constructor
  · intro fd
    rw [h.isSome_openFile?_on]
    exact hs.mem_of_isSome fd
  · rw [h.nextFd_on, hcloses, hs.nextFd_eq]
  · rw [hopens, hcloses]
    exact hs.le_opens
  · rw [hcloses]
    exact hs.exists_after
  · intro hsize fd hfd
    rw [h.isSome_openFile?_on]
    exact hs.isSome_of_mem (hopens ▸ hsize) fd hfd
  · rw [hopens]
    exact hs.nodup

/-- The next number is none of those that are held, unless all were given out. -/
theorem Store.Opened.fresh (hs : s.Opened fds) (hsize : s.calls.opens < Int32.size) :
    ⟨s.nextFd.toInt⟩ ∉ fds := by
  intro hmem
  obtain ⟨k, hk, hfd⟩ := hs.exists_after _ hmem
  have hle := hs.le_opens
  rw [hs.nextFd_eq] at hfd
  exact absurd hfd.symm (Fd.after_ne hk (by omega))

private theorem Store.Opened.openPath_ok {path : String} {flags : OpenFlags} {mode : UInt32}
    (hs : s.Opened fds) (hopen : s.openPath path flags mode = (.ok fd, s')) :
    s'.Opened (fd ::ₘ fds) ∧ s'.calls.opens = s.calls.opens + 1 ∧
      fd = ⟨s.nextFd.toInt⟩ ∧ ∀ other, other ≠ fd → s'.openFile? other = s.openFile? other := by
  obtain ⟨-, rfl, ino, tree, -, hs'⟩ := openPath_eq_ok hopen
  have hfile := openFile?_of_insert (s := s) (congrArg openFiles hs')
  have hnext : s'.nextFd = s.nextFd + 1 := congrArg nextFd hs'
  have hopens : s'.calls.opens = s.calls.opens + 1 := congrArg (·.calls.opens) hs'
  have hcloses : s'.calls.closes = s.calls.closes := congrArg (·.calls.closes) hs'
  have hgiven : s.calls.closes + Multiset.card (⟨s.nextFd.toInt⟩ ::ₘ fds) =
      s.calls.closes + Multiset.card fds + 1 := by
    rw [Multiset.card_cons, Nat.add_assoc]
  refine ⟨⟨?_, ?_, ?_, ?_, ?_, ?_⟩, hopens, rfl, fun other hother => ?_⟩
  · intro other hopen
    rw [hfile] at hopen
    split at hopen
    · exact Multiset.mem_cons.2 (.inl ‹_›)
    · exact Multiset.mem_cons_of_mem (hs.mem_of_isSome other hopen)
  · rw [hnext, hcloses, hgiven, hs.nextFd_eq, Int32.ofNat_add _ 1, Int32.add_assoc]
    rfl
  · rw [hcloses, hopens, hgiven]
    exact Nat.succ_le_succ hs.le_opens
  · rw [hcloses, hgiven]
    intro other hother
    rcases Multiset.mem_cons.1 hother with rfl | hother
    · exact ⟨_, Nat.lt_succ_self _, by rw [hs.nextFd_eq]; rfl⟩
    · obtain ⟨k, hk, hfd⟩ := hs.exists_after other hother
      exact ⟨k, Nat.lt_succ_of_lt hk, hfd⟩
  · intro hsize other hother
    rw [hfile]
    split
    · rfl
    · rename_i hne
      exact hs.isSome_of_mem (by omega) other ((Multiset.mem_cons.1 hother).resolve_left hne)
  · intro hsize
    exact Multiset.nodup_cons.2 ⟨hs.fresh (by omega), hs.nodup (by omega)⟩
  · rw [hfile, if_neg hother]

private theorem Store.calls_close (s : Store) (fd : Fd) :
    (s.close fd).2.calls.opens = s.calls.opens ∧
      (s.close fd).2.calls.closes = s.calls.closes + 1 := by
  simp only [Store.close]
  repeat' split
  all_goals exact ⟨rfl, rfl⟩

theorem Store.Opened.close (hs : s.Opened (fd ::ₘ fds)) : (s.close fd).2.Opened fds := by
  obtain ⟨hopens, hcloses⟩ := s.calls_close fd
  have hnext : (s.close fd).2.nextFd = s.nextFd :=
    ((Operation.close fd).nextFd_on s).trans (Int32.add_zero _)
  have hgiven : s.calls.closes + 1 + Multiset.card fds =
      s.calls.closes + Multiset.card (fd ::ₘ fds) := by
    rw [Multiset.card_cons]
    omega
  constructor
  · intro other hopen
    rw [openFile?_close] at hopen
    split at hopen
    · cases hopen
    · rename_i hne
      exact (Multiset.mem_cons.1 (hs.mem_of_isSome other hopen)).resolve_left hne
  · rw [hnext, hcloses, hgiven, hs.nextFd_eq]
  · rw [hopens, hcloses, hgiven]
    exact hs.le_opens
  · rw [hcloses, hgiven]
    exact fun other hother => hs.exists_after other (Multiset.mem_cons_of_mem hother)
  · intro hsize other hother
    rw [hopens] at hsize
    have hne : other ≠ fd := by
      rintro rfl
      exact (Multiset.nodup_cons.1 (hs.nodup hsize)).1 hother
    rw [openFile?_close, if_neg hne]
    exact hs.isSome_of_mem hsize other (Multiset.mem_cons_of_mem hother)
  · intro hsize
    exact (Multiset.nodup_cons.1 (hs.nodup (hopens ▸ hsize))).2

/-- Open are the descriptors of one's own and those of others, and the latter stand for what they
stood for in an earlier store as long as the numbers have not come back. -/
def Store.OpenedBeside (s before : Store) (others own : Multiset Fd) : Prop :=
  s.Opened (own + others) ∧
    (s.calls.opens ≤ Int32.size → ∀ fd ∈ others, s.openFile? fd = before.openFile? fd)

variable {before : Store} {others own : Multiset Fd}

theorem Store.Opened.beside (hs : s.Opened fds) : s.OpenedBeside s fds 0 :=
  ⟨by rwa [zero_add], fun _ _ _ => rfl⟩

private theorem Store.OpenedBeside.ne_of_mem (hs : s.OpenedBeside before others own)
    (hsize : s.calls.opens ≤ Int32.size) (hown : fd ∈ own) (hother : other ∈ others) :
    other ≠ fd := by
  rintro rfl
  exact Multiset.disjoint_left.1 (Multiset.nodup_add.1 (hs.1.nodup hsize)).2.2 hown hother

private theorem Store.OpenedBeside.on (hs : s.OpenedBeside before others own) (op : Operation)
    (h : op.KeepsDescriptors)
    (hlisted : ∀ other limit, op = .readdir other limit → other ∈ own) :
    (op.on s).OpenedBeside before others own := by
  refine ⟨hs.1.on op h, fun hsize fd hfd => ?_⟩
  rw [h.calls_on.1] at hsize
  rw [h.openFile?_on, hs.2 hsize fd hfd]
  intro limit hop
  exact hs.ne_of_mem hsize (hlisted fd limit hop) hfd rfl

/-- When nothing of one's own is open any more, the table of descriptors is as it was. -/
theorem Store.OpenedBeside.openFile?_eq (hs : s.OpenedBeside before others 0)
    (hbefore : before.Opened others) (hsize : s.calls.opens ≤ Int32.size) (fd : Fd) :
    s.openFile? fd = before.openFile? fd := by
  by_cases hfd : fd ∈ others
  · exact hs.2 hsize fd hfd
  · have hnone {s : Store} (hs : s.Opened others) : s.openFile? fd = none := by
      rw [← Option.isNone_iff_eq_none, ← Option.isSome_eq_false_iff, ← Bool.not_eq_true]
      exact fun hopen => hfd (hs.mem_of_isSome fd hopen)
    have hopened := hs.1
    rw [zero_add] at hopened
    rw [hnone hopened, hnone hbefore]

theorem book_of_on {keeps : Store → Prop}
    (h : ∀ {op : Operation} {s}, op.LeavesFaults → keeps s → keeps (op.on s)) :
    Book fun _ (s : Store) => keeps s where
  openPath_ok {_ s s' path flags mode _} hs hopen := by
    have hs' := @h (.openPath path flags mode) s trivial hs
    rwa [show (Operation.openPath path flags mode).on s = s' from congrArg Prod.snd hopen] at hs'
  openPath_error {_ s s' path flags mode _} hs hopen := by
    have hs' := @h (.openPath path flags mode) s trivial hs
    rwa [show (Operation.openPath path flags mode).on s = s' from congrArg Prod.snd hopen] at hs'
  close {fd _ _} hs := @h (.close fd) _ trivial hs
  read {fd _ _} buffer offset _ hs := @h (.read fd buffer offset) _ trivial hs
  write {fd _ _} bytes offset _ hs := @h (.write fd bytes offset) _ trivial hs
  flush {fd _ _} _ hs := @h (.flush fd) _ trivial hs
  readdir {fd _ _} limit _ hs := @h (.readdir fd limit) _ trivial hs
  batchGetAttr {fd _ _} inodes _ hs := @h (.batchGetAttr fd inodes) _ trivial hs
  fchmod {fd _ _} mode _ hs := @h (.fchmod fd mode) _ trivial hs
  getAttr path hs := @h (.getAttr path) _ trivial hs
  mkdirs path mode hs := @h (.mkdirs path mode) _ trivial hs
  unlink path hs := @h (.unlink path) _ trivial hs
  rmdir path hs := @h (.rmdir path) _ trivial hs
  rename source target hs := @h (.rename source target) _ trivial hs
  shutdown hs := @h .shutdown _ trivial hs

/-- What opening and closing carry on from the descriptors before to those after, and the other
calls keep. -/
theorem book_of_descriptors {keeps : Multiset Fd → Store → Prop}
    (hok : ∀ {own s s' path flags mode fd}, keeps own s →
      s.openPath path flags mode = (.ok fd, s') → keeps (fd ::ₘ own) s')
    (hcounted : ∀ {own s}, keeps own s → keeps own { s with calls.opens := s.calls.opens + 1 })
    (hclose : ∀ {fd own s}, keeps (fd ::ₘ own) s → keeps own (s.close fd).2)
    (hon : ∀ {own s} (op : Operation), op.KeepsDescriptors →
      (∀ fd limit, op = .readdir fd limit → fd ∈ own) → keeps own s → keeps own (op.on s)) :
    Book keeps where
  openPath_ok := hok
  openPath_error := by
    intro fds s s' path flags mode code hs hopen
    rcases Store.openPath_eq_error hopen with rfl | rfl
    · exact hs
    · exact hcounted hs
  close := hclose
  read {fd _ _} buffer offset _ := hon (.read fd buffer offset) trivial nofun
  write {fd _ _} bytes offset _ := hon (.write fd bytes offset) trivial nofun
  flush {fd _ _} _ := hon (.flush fd) trivial nofun
  readdir {fd _ _} limit hfd := hon (.readdir fd limit) trivial (by
    rintro _ _ ⟨⟩
    exact hfd)
  batchGetAttr {fd _ _} inodes _ := hon (.batchGetAttr fd inodes) trivial nofun
  fchmod {fd _ _} mode _ := hon (.fchmod fd mode) trivial nofun
  getAttr path := hon (.getAttr path) trivial nofun
  mkdirs path mode := hon (.mkdirs path mode) trivial nofun
  unlink path := hon (.unlink path) trivial nofun
  rmdir path := hon (.rmdir path) trivial nofun
  rename source target := hon (.rename source target) trivial nofun
  shutdown := hon .shutdown trivial nofun

private theorem Store.Opened.counted (hs : s.Opened fds) :
    Store.Opened { s with calls.opens := s.calls.opens + 1 } fds where
  mem_of_isSome := hs.mem_of_isSome
  nextFd_eq := hs.nextFd_eq
  le_opens := Nat.le_succ_of_le hs.le_opens
  exists_after := hs.exists_after
  isSome_of_mem hsize := hs.isSome_of_mem (Nat.le_of_succ_le hsize)
  nodup hsize := hs.nodup (Nat.le_of_succ_le hsize)

theorem book_opened : Book fun fds (s : Store) => s.Opened fds :=
  book_of_descriptors (fun hs hopen => (hs.openPath_ok hopen).1) Store.Opened.counted
    Store.Opened.close fun op h _ hs => hs.on op h

theorem book_openedBeside (before : Store) (others : Multiset Fd) :
    Book fun own (s : Store) => s.OpenedBeside before others own := by
  refine book_of_descriptors ?_ ?_ ?_ fun op h hlisted hs => hs.on op h hlisted
  · intro own s s' path flags mode fd hs hopen
    obtain ⟨hopened, hopens, rfl, hrest⟩ := hs.1.openPath_ok hopen
    refine ⟨by rwa [Multiset.cons_add], fun hsize other hother => ?_⟩
    rw [hopens] at hsize
    rw [hrest, hs.2 (Nat.le_of_succ_le hsize) other hother]
    rintro rfl
    exact hs.1.fresh hsize (Multiset.mem_add.2 (.inr hother))
  · exact fun hs => ⟨hs.1.counted, fun hsize => hs.2 (Nat.le_of_succ_le hsize)⟩
  · intro fd own s hs
    have hopened := hs.1
    rw [Multiset.cons_add] at hopened
    refine ⟨hopened.close, fun hsize other hother => ?_⟩
    rw [(s.calls_close fd).1] at hsize
    have hne := hs.ne_of_mem hsize (Multiset.mem_cons_self fd own) hother
    rw [Store.openFile?_close, if_neg hne, hs.2 hsize other hother]

theorem book_isSome (fd : Fd) :
    Book fun own (s : Store) => (s.openFile? fd).isSome = true → fd ∈ own := by
  refine book_of_descriptors ?_ id ?_ ?_
  · intro own s s' path flags mode opened hs hopen hsome
    obtain ⟨-, rfl, ino, tree, -, hs'⟩ := Store.openPath_eq_ok hopen
    rw [Store.openFile?_of_insert (congrArg Store.openFiles hs')] at hsome
    split at hsome
    · exact Multiset.mem_cons.2 (.inl ‹_›)
    · exact Multiset.mem_cons_of_mem (hs hsome)
  · intro closed own s hs hsome
    rw [Store.openFile?_close] at hsome
    split at hsome
    · cases hsome
    · rename_i hne
      exact (Multiset.mem_cons.1 (hs hsome)).resolve_left hne
  · intro own s op h _ hs hsome
    rw [h.isSome_openFile?_on] at hsome
    exact hs hsome

end Memory
end VolumeFs
