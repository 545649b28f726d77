import Mathlib.Data.List.Nodup
import Mathlib.Data.List.Perm.Basic
import VolumeFs.Pool
import VolumeFs.Proofs.Pieces

/-!
# Buffers that a pool lends

A pool counts the buffers that it keeps and those that it has handed out, beside the stacks that
hold the former. Over any sequence of requests and returns, also such as come after the pool was
cleared, the counts are those of the buffers, and no buffer is in two places.
-/

namespace VolumeFs

namespace Shelves

def parked (shelves : Shelves) : List Buffer := shelves.flatMap Prod.snd

/-- Each size has one stack, and all buffers on it are of that size, which is not zero. -/
structure IsFiled (shelves : Shelves) : Prop where
  nodup_sizes : (shelves.map Prod.fst).Nodup
  size_eq : ∀ size stacked, (size, stacked) ∈ shelves → ∀ b ∈ stacked, b.size = size
  size_pos : ∀ b ∈ shelves.parked, 0 < b.size

variable {shelves : Shelves} {size : Nat} {buffers : List Buffer} {b : Buffer}

theorem isFiled_nil : IsFiled [] where
  nodup_sizes := List.nodup_nil
  size_eq := by simp
  size_pos := by simp [parked]

theorem mem_parked_iff : b ∈ shelves.parked ↔ ∃ size stacked, (size, stacked) ∈ shelves ∧
    b ∈ stacked := by
  simp [parked]

theorem stack_cons (key : Nat) (stacked : List Buffer) (rest : Shelves) (size : Nat) :
    stack ((key, stacked) :: rest) size = if key = size then stacked else stack rest size := by
  unfold stack
  rw [List.lookup_cons]
  by_cases h : key = size
  · simp [h]
  · simp [h, beq_false_of_ne (Ne.symm h)]

private theorem parked_set_perm (shelves : Shelves) (size : Nat) (buffers : List Buffer) :
    ((shelves.set size buffers).parked ++ shelves.stack size).Perm
      (shelves.parked ++ buffers) := by
  induction shelves with
  | nil => simp [set, parked, stack]
  | cons shelf rest ih =>
    obtain ⟨key, stacked⟩ := shelf
    rw [set, stack_cons]
    by_cases h : key = size
    · simp only [h, if_true, parked, List.flatMap_cons]
      rw [List.append_assoc]
      apply List.Perm.trans (List.perm_append_comm : (buffers ++ _).Perm _)
      exact List.Perm.append_right buffers List.perm_append_comm
    · simp only [h, if_false, parked, List.flatMap_cons, List.append_assoc]
      exact ih.append_left stacked

private theorem mem_set {shelf : Nat × List Buffer} (h : shelf ∈ shelves.set size buffers) :
    shelf ∈ shelves ∨ shelf = (size, buffers) := by
  induction shelves with
  | nil => simpa [set] using h
  | cons first rest ih =>
    rw [set] at h
    split at h
    · rename_i hkey
      rcases List.mem_cons.1 h with rfl | h
      · simp [hkey]
      · exact .inl (List.mem_cons_of_mem _ h)
    · rcases List.mem_cons.1 h with rfl | h
      · simp
      · exact (ih h).imp_left (List.mem_cons_of_mem _)

private theorem nodup_sizes_set (h : (shelves.map Prod.fst).Nodup) :
    ((shelves.set size buffers).map Prod.fst).Nodup := by
  induction shelves with
  | nil => simp [set]
  | cons first rest ih =>
    obtain ⟨key, stacked⟩ := first
    simp only [List.map_cons, List.nodup_cons] at h
    rw [set]
    split
    · simpa using h
    · rename_i hkey
      simp only [List.map_cons, List.nodup_cons]
      refine ⟨?_, ih h.2⟩
      intro hmem
      obtain ⟨shelf, hshelf, hfst⟩ := List.mem_map.1 hmem
      rcases mem_set hshelf with hold | rfl
      · exact h.1 (List.mem_map.2 ⟨shelf, hold, hfst⟩)
      · exact hkey hfst.symm

private theorem IsFiled.set (h : shelves.IsFiled) (hsize : ∀ b ∈ buffers, b.size = size)
    (hpos : ∀ b ∈ buffers, 0 < b.size) : (shelves.set size buffers).IsFiled where
  nodup_sizes := nodup_sizes_set h.nodup_sizes
  size_eq key stacked hmem := by
    rcases mem_set hmem with hold | heq
    · exact h.size_eq key stacked hold
    · cases heq
      exact hsize
  size_pos b hb := by
    obtain ⟨key, stacked, hmem, hb⟩ := mem_parked_iff.1 hb
    rcases mem_set hmem with hold | heq
    · exact h.size_pos b (mem_parked_iff.2 ⟨key, stacked, hold, hb⟩)
    · cases heq
      exact hpos b hb

theorem IsFiled.mem_stack_iff (h : shelves.IsFiled) :
    b ∈ shelves.stack size ↔ b ∈ shelves.parked ∧ b.size = size := by
  obtain ⟨hnodup, hsize, -⟩ := h
  induction shelves with
  | nil => simp [stack, parked]
  | cons first rest ih =>
    obtain ⟨key, stacked⟩ := first
    simp only [List.map_cons, List.nodup_cons] at hnodup
    have hstacked : ∀ b ∈ stacked, b.size = key := hsize key stacked List.mem_cons_self
    have hrest := ih hnodup.2 fun k s hmem => hsize k s (List.mem_cons_of_mem _ hmem)
    have hother (hb : b ∈ parked rest) : b.size ≠ key := by
      intro heq
      obtain ⟨k, s, hmem, hb⟩ := mem_parked_iff.1 hb
      obtain rfl : k = key := (hsize k s (List.mem_cons_of_mem _ hmem) b hb).symm.trans heq
      exact hnodup.1 (List.mem_map.2 ⟨_, hmem, rfl⟩)
    have hsplit : b ∈ parked ((key, stacked) :: rest) ↔ b ∈ stacked ∨ b ∈ parked rest := by
      simp [parked]
    rw [stack_cons, hsplit]
    by_cases hkey : key = size
    · subst hkey
      rw [if_pos rfl]
      constructor
      · intro hb
        exact ⟨.inl hb, hstacked b hb⟩
      · rintro ⟨hb | hb, heq⟩
        · exact hb
        · exact absurd heq (hother hb)
    · rw [if_neg hkey, hrest]
      constructor
      · intro hb
        exact ⟨.inr hb.1, hb.2⟩
      · rintro ⟨hb | hb, heq⟩
        · exact absurd ((hstacked b hb).symm.trans heq) hkey
        · exact ⟨hb, heq⟩

private theorem IsFiled.pop (h : shelves.IsFiled) (hstack : shelves.stack size = b :: buffers) :
    (shelves.set size buffers).IsFiled := by
  have hmem (other : Buffer) (hother : other ∈ buffers) :
      other ∈ shelves.parked ∧ other.size = size := by
    apply h.mem_stack_iff.1
    simp [hstack, hother]
  apply h.set
  · intro other hother
    exact (hmem other hother).2
  · intro other hother
    exact h.size_pos other (hmem other hother).1

private theorem IsFiled.push (h : shelves.IsFiled) (hpos : 0 < b.size) :
    (shelves.set b.size (b :: shelves.stack b.size)).IsFiled := by
  apply h.set
  · intro other hother
    rcases List.mem_cons.1 hother with rfl | hother
    · rfl
    · exact (h.mem_stack_iff.1 hother).2
  · intro other hother
    rcases List.mem_cons.1 hother with rfl | hother
    · exact hpos
    · exact h.size_pos other (h.mem_stack_iff.1 hother).1

private theorem total_of_size_eq {stacked : List Buffer} (h : ∀ b ∈ stacked, b.size = size) :
    Bytes.total (stacked.map Buffer.bytes) = size * stacked.length := by
  induction stacked with
  | nil => rfl
  | cons b stacked ih =>
    have hb : b.bytes.size = size := h b List.mem_cons_self
    have hstacked := ih fun other hother => h other (List.mem_cons_of_mem _ hother)
    rw [List.map_cons, Bytes.total, hb, hstacked, List.length_cons, Nat.mul_succ, Nat.add_comm]

private theorem IsFiled.idleBytes_eq {p : Pool} (h : p.shelves.IsFiled) :
    p.idleBytes = Bytes.total (p.shelves.parked.map Buffer.bytes) := by
  obtain ⟨-, hsize, -⟩ := h
  unfold Pool.idleBytes
  generalize p.shelves = shelves at hsize ⊢
  induction shelves with
  | nil => rfl
  | cons first rest ih =>
    obtain ⟨key, stacked⟩ := first
    have hstacked := total_of_size_eq (hsize key stacked List.mem_cons_self)
    have hrest := ih fun k s hmem => hsize k s (List.mem_cons_of_mem _ hmem)
    rw [List.foldr_cons, hrest]
    simp [parked, hstacked]

end Shelves

namespace Pool

variable {p : Pool} {size : Nat} {buffer : Buffer} {rest : List Buffer}

private theorem acquire_of_parked (h : p.shelves.stack size = buffer :: rest) :
    p.acquire size = (buffer, { p with
      shelves := p.shelves.set size rest, idle := p.idle - 1, inUse := p.inUse + 1
      hits := p.hits + 1 }) := by
  simp [acquire, take, h]

private theorem acquire_of_none (h : p.shelves.stack size = []) :
    p.acquire size = (⟨p.allocations, Bytes.zeros size⟩,
      { p with inUse := p.inUse + 1, allocations := p.allocations + 1 }) := by
  simp [acquire, take, h]

private theorem release_of_not_kept (h : buffer.size = 0 ∨ p.config.maxIdle ≤ p.idle) :
    p.release buffer = { p with inUse := p.inUse - 1 } := by
  simp [release, h]

private theorem release_of_kept (h : ¬ (buffer.size = 0 ∨ p.config.maxIdle ≤ p.idle)) :
    p.release buffer = { p with
      shelves := p.shelves.set buffer.size (buffer :: p.shelves.stack buffer.size)
      idle := p.idle + 1, inUse := p.inUse - 1 } := by
  simp [release, h]

private theorem inUse_release (p : Pool) (buffer : Buffer) :
    (p.release buffer).inUse = p.inUse - 1 := by
  unfold release
  dsimp only
  split <;> rfl

private theorem parked_perm_of_stack (h : p.shelves.stack size = buffer :: rest) :
    p.shelves.parked.Perm (buffer :: (p.shelves.set size rest).parked) := by
  have hperm := Shelves.parked_set_perm p.shelves size rest
  rw [h, List.append_cons, List.perm_append_right_iff] at hperm
  exact hperm.symm.trans List.perm_append_comm

private theorem parked_set_cons_perm (shelves : Shelves) (buffer : Buffer) (size : Nat) :
    (shelves.set size (buffer :: shelves.stack size)).parked.Perm (buffer :: shelves.parked) := by
  have hperm := Shelves.parked_set_perm shelves size (buffer :: shelves.stack size)
  rw [List.append_cons, List.perm_append_right_iff] at hperm
  exact hperm.trans List.perm_append_comm

/-- What a request comes to: a buffer of the size asked for, which was parked exactly where one of
that size was. -/
structure Serves (p : Pool) (size : Nat) (buffer : Buffer) (after : Pool) : Prop where
  size_eq : buffer.size = size
  hit : (∃ b ∈ p.shelves.parked, b.size = size) →
    buffer ∈ p.shelves.parked ∧ after.hits = p.hits + 1 ∧ after.allocations = p.allocations
  miss : (¬ ∃ b ∈ p.shelves.parked, b.size = size) →
    buffer.serial = p.allocations ∧ after.hits = p.hits ∧ after.allocations = p.allocations + 1

private theorem serves_acquire (h : p.shelves.IsFiled) (size : Nat) :
    p.Serves size (p.acquire size).1 (p.acquire size).2 := by
  cases hstack : p.shelves.stack size with
  | nil =>
    rw [acquire_of_none hstack]
    refine ⟨Bytes.size_zeros size, ?_, fun _ => ⟨rfl, rfl, rfl⟩⟩
    rintro ⟨b, hb, hsize⟩
    have hmem := h.mem_stack_iff.2 ⟨hb, hsize⟩
    simp [hstack] at hmem
  | cons buffer rest =>
    rw [acquire_of_parked hstack]
    have hmem : buffer ∈ p.shelves.stack size := by simp [hstack]
    obtain ⟨hparked, hsize⟩ := h.mem_stack_iff.1 hmem
    refine ⟨hsize, fun _ => ⟨hparked, rfl, rfl⟩, ?_⟩
    intro hnone
    exact absurd ⟨buffer, hparked, hsize⟩ hnone

end Pool

structure Loan where
  requested : Nat
  buffer : Buffer

structure Lending where
  pool : Pool
  loans : List Loan := []

/-- What can be done with a pool and its buffers. Whoever holds a buffer may change what is in it
and lets go of it at any time. -/
inductive PoolCall where
  | acquire (size : Nat)
  | overwrite (index : Nat) (bytes : ByteArray)
  | drop (index : Nat)
  | clear

def PoolCall.isAcquire : PoolCall → Bool
  | acquire _ => true
  | _ => false

namespace Lending

def new (maxIdle : Nat) : Lending := { pool := { config := { maxIdle } } }

def on (w : Lending) : PoolCall → Lending
  | .acquire size =>
    let (buffer, pool) := w.pool.acquire size
    { pool, loans := ⟨size, buffer⟩ :: w.loans }
  | .overwrite index bytes =>
    match w.loans[index]? with
    | some loan =>
      if bytes.size = loan.buffer.size then
        { w with loans := w.loans.set index { loan with buffer := { loan.buffer with bytes } } }
      else w
    | none => w
  | .drop index =>
    match w.loans[index]? with
    | some loan => { w with pool := w.pool.release loan.buffer, loans := w.loans.eraseIdx index }
    | none => w
  | .clear => { w with pool := w.pool.clear }

def run (w : Lending) (calls : List PoolCall) : Lending := calls.foldl on w

/-- The buffers that are parked and those that are checked out. -/
def buffers (w : Lending) : List Buffer := w.pool.shelves.parked ++ w.loans.map Loan.buffer

/-- Numbers that were all given out, and to one each, by a count that has come so far. -/
def Apart (serials : List Nat) (count : Nat) : Prop :=
  serials.Nodup ∧ ∀ n ∈ serials, n < count

private theorem Apart.perm {serials others : List Nat} {count : Nat} (h : Apart serials count)
    (hperm : others.Perm serials) : Apart others count := by
  refine ⟨hperm.nodup_iff.2 h.1, ?_⟩
  intro n hn
  exact h.2 n (hperm.subset hn)

theorem Apart.of_cons {serials : List Nat} {n count : Nat} (h : Apart (n :: serials) count) :
    Apart serials count := by
  refine ⟨(List.nodup_cons.1 h.1).2, ?_⟩
  intro m hm
  exact h.2 m (List.mem_cons_of_mem _ hm)

private theorem Apart.next {serials : List Nat} {count : Nat} (h : Apart serials count) :
    Apart (count :: serials) (count + 1) := by
  constructor
  · apply List.nodup_cons.2
    refine ⟨?_, h.1⟩
    intro hmem
    exact Nat.lt_irrefl _ (h.2 count hmem)
  · intro n hn
    rcases List.mem_cons.1 hn with rfl | hn
    · exact Nat.lt_succ_self n
    · exact Nat.lt_succ_of_lt (h.2 n hn)

/-- The counts are those of the buffers, none of which is in two places. -/
structure Conserved (maxIdle : Nat) (w : Lending) : Prop where
  filed : w.pool.shelves.IsFiled
  requested : ∀ loan ∈ w.loans, loan.buffer.size = loan.requested
  apart : Apart (w.buffers.map Buffer.serial) w.pool.allocations
  maxIdle_eq : w.pool.config.maxIdle = maxIdle
  idle_eq : w.pool.idle = w.pool.shelves.parked.length
  idle_le : w.pool.idle ≤ maxIdle
  inUse_eq : w.pool.inUse = w.loans.length

variable {w : Lending} {maxIdle : Nat}

private theorem conserved_new (maxIdle : Nat) : (new maxIdle).Conserved maxIdle where
  filed := Shelves.isFiled_nil
  requested := by simp [new]
  apart := by simp [new, buffers, Shelves.parked, Apart]
  maxIdle_eq := rfl
  idle_eq := rfl
  idle_le := Nat.zero_le _
  inUse_eq := rfl

private theorem Conserved.acquire (h : w.Conserved maxIdle) (size : Nat) :
    (w.on (.acquire size)).Conserved maxIdle := by
  have hsize := (Pool.serves_acquire h.filed size).size_eq
  cases hstack : w.pool.shelves.stack size with
  | nil =>
    simp only [on, Pool.acquire_of_none hstack] at hsize ⊢
    refine ⟨h.filed, ?_, ?_, h.maxIdle_eq, h.idle_eq, h.idle_le, by simp [h.inUse_eq]⟩
    · simpa [hsize] using h.requested
    · apply h.apart.next.perm
      simp only [buffers, List.map_append, List.map_cons]
      exact List.perm_middle
  | cons buffer rest =>
    have hparked := Pool.parked_perm_of_stack hstack
    have hlength := hparked.length_eq
    have hidle := h.idle_eq
    have hle := h.idle_le
    rw [List.length_cons] at hlength
    simp only [on, Pool.acquire_of_parked hstack] at hsize ⊢
    refine ⟨h.filed.pop hstack, ?_, ?_, h.maxIdle_eq, ?_, ?_, by simp [h.inUse_eq]⟩
    · simpa [hsize] using h.requested
    · apply h.apart.perm
      simp only [buffers, List.map_append, List.map_cons]
      apply List.perm_middle.trans
      exact ((hparked.map Buffer.serial).append_right _).symm
    · dsimp only
      omega
    · dsimp only
      omega

private theorem Conserved.overwrite (h : w.Conserved maxIdle) (index : Nat) (bytes : ByteArray) :
    (w.on (.overwrite index bytes)).Conserved maxIdle := by
  simp only [on]
  split
  · rename_i loan hloan
    split
    · rename_i hsize
      obtain ⟨hlt, hget⟩ := List.getElem?_eq_some_iff.1 hloan
      refine ⟨h.filed, ?_, ?_, h.maxIdle_eq, h.idle_eq, h.idle_le, by simp [h.inUse_eq]⟩
      · intro other hother
        rcases List.mem_or_eq_of_mem_set hother with hold | rfl
        · exact h.requested other hold
        · exact hsize.trans (h.requested loan (List.mem_of_getElem? hloan))
      · have hserials : (w.loans.set index { loan with buffer := { loan.buffer with bytes } }).map
            (Buffer.serial ∘ Loan.buffer) = w.loans.map (Buffer.serial ∘ Loan.buffer) := by
          apply List.ext_getElem (by simp)
          intro i _ _
          by_cases hi : index = i
          · subst hi
            simp [hget]
          · simp [hi]
        have hapart := h.apart
        simp only [buffers, List.map_append, List.map_map] at hapart ⊢
        rwa [hserials]
    · exact h
  · exact h

private theorem loans_perm {index : Nat} {loan : Loan} (hloan : w.loans[index]? = some loan) :
    (loan :: w.loans.eraseIdx index).Perm w.loans := by
  obtain ⟨hlt, hget⟩ := List.getElem?_eq_some_iff.1 hloan
  rw [← hget]
  exact List.getElem_cons_eraseIdx_perm hlt

private theorem Conserved.drop (h : w.Conserved maxIdle) (index : Nat) :
    (w.on (.drop index)).Conserved maxIdle := by
  simp only [on]
  split
  · rename_i loan hloan
    have hloans := loans_perm hloan
    have hlength := hloans.length_eq
    rw [List.length_cons] at hlength
    have hinUse := h.inUse_eq
    have hrequested : ∀ other ∈ w.loans.eraseIdx index, other.buffer.size = other.requested := by
      intro other hother
      exact h.requested other (hloans.subset (List.mem_cons_of_mem _ hother))
    have hserials : (loan.buffer.serial :: (w.pool.shelves.parked ++
        (w.loans.eraseIdx index).map Loan.buffer).map Buffer.serial).Perm
        (w.buffers.map Buffer.serial) := by
      simp only [buffers, List.map_append]
      apply List.perm_middle.symm.trans
      exact ((hloans.map Loan.buffer).map Buffer.serial).append_left _
    by_cases hkept : loan.buffer.size = 0 ∨ w.pool.config.maxIdle ≤ w.pool.idle
    · rw [Pool.release_of_not_kept hkept]
      refine ⟨h.filed, hrequested, ?_, h.maxIdle_eq, h.idle_eq, h.idle_le, ?_⟩
      · exact (h.apart.perm hserials).of_cons
      · dsimp only
        omega
    · rw [Pool.release_of_kept hkept]
      obtain ⟨hpos, hroom⟩ := not_or.1 hkept
      have hparked := Pool.parked_set_cons_perm w.pool.shelves loan.buffer loan.buffer.size
      have hidle := h.idle_eq
      have hmaxIdle := h.maxIdle_eq
      refine ⟨h.filed.push (Nat.pos_of_ne_zero hpos), hrequested, ?_, hmaxIdle, ?_, ?_, ?_⟩
      · apply h.apart.perm
        apply List.Perm.trans _ hserials
        simp only [buffers, List.map_append]
        exact (hparked.map Buffer.serial).append_right _
      · dsimp only
        rw [hparked.length_eq, List.length_cons, hidle]
      · dsimp only
        omega
      · dsimp only
        omega
  · exact h

private theorem Conserved.clear (h : w.Conserved maxIdle) : (w.on .clear).Conserved maxIdle := by
  refine ⟨Shelves.isFiled_nil, h.requested, ?_, h.maxIdle_eq, rfl, Nat.zero_le _, h.inUse_eq⟩
  have hserials : (w.on .clear).buffers <:+ w.buffers := List.suffix_append _ _
  refine ⟨h.apart.1.sublist (hserials.sublist.map _), ?_⟩
  intro n hn
  exact h.apart.2 n ((hserials.sublist.map _).subset hn)

private theorem Conserved.on (h : w.Conserved maxIdle) (call : PoolCall) :
    (w.on call).Conserved maxIdle := by
  cases call with
  | acquire size => exact h.acquire size
  | overwrite index bytes => exact h.overwrite index bytes
  | drop index => exact h.drop index
  | clear => exact h.clear

private theorem Conserved.run (h : w.Conserved maxIdle) (calls : List PoolCall) :
    (w.run calls).Conserved maxIdle := by
  induction calls generalizing w with
  | nil => exact h
  | cons call calls ih => exact ih (h.on call)

private theorem counts_on (w : Lending) (call : PoolCall) :
    (w.on call).pool.allocations + (w.on call).pool.hits =
      w.pool.allocations + w.pool.hits + if call.isAcquire then 1 else 0 := by
  cases call with
  | acquire size =>
    cases hstack : w.pool.shelves.stack size with
    | nil =>
      simp only [on, Pool.acquire_of_none hstack, PoolCall.isAcquire, if_true]
      omega
    | cons buffer rest =>
      simp only [on, Pool.acquire_of_parked hstack, PoolCall.isAcquire, if_true]
      omega
  | overwrite index bytes =>
    simp only [on]
    split
    · split <;> rfl
    · rfl
  | drop index =>
    simp only [on]
    split
    · rename_i loan _
      by_cases hkept : loan.buffer.size = 0 ∨ w.pool.config.maxIdle ≤ w.pool.idle
      · rw [Pool.release_of_not_kept hkept]
        rfl
      · rw [Pool.release_of_kept hkept]
        rfl
    · rfl
  | clear => rfl

private theorem counts_run (w : Lending) (calls : List PoolCall) :
    (w.run calls).pool.allocations + (w.run calls).pool.hits =
      w.pool.allocations + w.pool.hits + calls.countP PoolCall.isAcquire := by
  induction calls generalizing w with
  | nil => rfl
  | cons call calls ih =>
    rw [List.countP_cons]
    show ((w.on call).run calls).pool.allocations + ((w.on call).run calls).pool.hits = _
    rw [ih, counts_on]
    omega

end Lending

open Lending in
/-- Whatever was asked for and given back, in any order and also after the pool was cleared: the
pool and those who hold its buffers have each buffer once, the counts are right, no return finds
nothing handed out, and the next request is served from what is parked where that can be. -/
theorem conserved_of_calls (maxIdle : Nat) (calls : List PoolCall) :
    let w := (Lending.new maxIdle).run calls
    w.Conserved maxIdle ∧
      w.pool.idleBytes = Bytes.total (w.pool.shelves.parked.map Buffer.bytes) ∧
      w.pool.allocations + w.pool.hits = calls.countP PoolCall.isAcquire ∧
      (∀ loan ∈ w.loans, (w.pool.release loan.buffer).inUse + 1 = w.pool.inUse) ∧
      ∀ size, w.pool.Serves size (w.pool.acquire size).1 (w.pool.acquire size).2 := by
  intro w
  have hw : w.Conserved maxIdle := (conserved_new maxIdle).run calls
  refine ⟨hw, hw.filed.idleBytes_eq, ?_, ?_, Pool.serves_acquire hw.filed⟩
  · rw [show w = _ from rfl, counts_run]
    exact Nat.zero_add _
  · intro loan hloan
    have hpos : 0 < w.loans.length := List.length_pos_of_mem hloan
    rw [Pool.inUse_release, hw.inUse_eq]
    omega

/-- Of three buffers one is parked and let go of when the pool is cleared; one that comes back
after that is handed out again. -/
theorem conserved_of_calls_returned_after_clear :
    let calls : List PoolCall := [.acquire 2, .acquire 3, .acquire 2, .drop 2, .clear, .drop 0]
    let w := (Lending.new 1).run calls
    (∃ loan ∈ w.loans, loan.requested = 3 ∧ (w.pool.release loan.buffer).inUse + 1 = 1) ∧
      w.pool.idle = 1 ∧ w.pool.allocations + w.pool.hits = 3 ∧
      (w.pool.acquire 2).2.hits = w.pool.hits + 1 := by
  intro calls w
  obtain ⟨hw, -, hcounts, hreturn, hserves⟩ := conserved_of_calls 1 calls
  have hloan : (⟨3, ⟨1, Bytes.zeros 3⟩⟩ : Loan) ∈ w.loans := by
    show _ ∈ [(⟨3, ⟨1, Bytes.zeros 3⟩⟩ : Loan)]
    exact List.mem_singleton.2 rfl
  have hparked : (⟨2, Bytes.zeros 2⟩ : Buffer) ∈ w.pool.shelves.parked := by
    show _ ∈ [(⟨2, Bytes.zeros 2⟩ : Buffer)]
    exact List.mem_singleton.2 rfl
  have hhit := (hserves 2).hit ⟨_, hparked, Bytes.size_zeros 2⟩
  exact ⟨⟨_, hloan, rfl, hreturn _ hloan⟩, rfl, hcounts, hhit.2.1⟩

end VolumeFs
