import VolumeFs.Proofs.Store.Faltering
import VolumeFs.Proofs.Stream.Accounting
import VolumeFs.Proofs.Stream.Publication

/-!
# What a closed stream has made durable

A stream on a store whose writes, flushes and closes may fail. When it is closed without a failure
all bytes that it took are in the file, and the last write was followed by a flush. That flush has
succeeded, or a call on the stream had reported its failure before the close.
-/

namespace VolumeFs

open Bytes Memory

def Exchange.isWrite : Exchange → Bool
  | write .. => true
  | _ => false

/-- After each write comes an exchange of a kind. -/
def FollowedBy (kind : Exchange → Prop) (exchanges : List Exchange) : Prop :=
  ∀ before e after, exchanges = before ++ e :: after → e.isWrite = true →
    ∃ later ∈ after, kind later

/-- A flush of the store that has succeeded, or whose failure was the answer to one of the calls on
the stream. -/
inductive Exchange.IsBarrier (fd : Fd) (calls : List (WriteCall × WriteAnswer)) : Exchange → Prop
    where
  | done : IsBarrier fd calls (.flush fd (.ok ()))
  | reported {call code} (hrequest : call.request = .flush)
      (hcall : (call, call.answer (.error (.flushFailed fd code))) ∈ calls) :
      IsBarrier fd calls (.flush fd (.error code))

section FollowedBy

variable {kind : Exchange → Prop} {exchanges : List Exchange} {last : Exchange}

theorem FollowedBy.mono {kind' : Exchange → Prop} (h : FollowedBy kind exchanges)
    (hkind : ∀ e, kind e → kind' e) : FollowedBy kind' exchanges := by
  intro before e after hsplit hwrite
  obtain ⟨later, hmem, hlater⟩ := h before e after hsplit hwrite
  exact ⟨later, hmem, hkind later hlater⟩

theorem exists_after_of_concat {before after : List Exchange} {e : Exchange}
    (hlast : last.isWrite = false) (hwrite : e.isWrite = true)
    (hsplit : exchanges ++ [last] = before ++ e :: after) :
    ∃ after', after = after' ++ [last] ∧ exchanges = before ++ e :: after' := by
  rcases concat_split hsplit with ⟨-, rfl, -⟩ | hlater
  · rw [hwrite] at hlast
    cases hlast
  · exact hlater

theorem FollowedBy.concat (h : FollowedBy kind exchanges) (hlast : last.isWrite = false) :
    FollowedBy kind (exchanges ++ [last]) := by
  intro before e after hsplit hwrite
  obtain ⟨after', rfl, hfront⟩ := exists_after_of_concat hlast hwrite hsplit
  obtain ⟨later, hmem, hlater⟩ := h before e after' hfront hwrite
  exact ⟨later, List.mem_append_left _ hmem, hlater⟩

theorem followedBy_concat (hkind : kind last) (hlast : last.isWrite = false) :
    FollowedBy kind (exchanges ++ [last]) := by
  intro before e after hsplit hwrite
  obtain ⟨after', rfl, -⟩ := exists_after_of_concat hlast hwrite hsplit
  exact ⟨last, List.mem_append_right _ List.mem_cons_self, hkind⟩

end FollowedBy

/-- Where the bytes of a stream are after some calls. A stream that is stuck and has an empty buffer
has reported that a flush failed, and has written nothing since. -/
inductive Delivery {σ : Type} (handle : Handle) (holds : ByteArray → Traced σ → Prop)
    (calls : List (WriteCall × WriteAnswer)) (w : Writer) (t : Traced σ) : Prop where
  | underway {pieces} (hw : w.IsSound handle) (hfd : w.fd = handle.fd)
      (hsize : w.buffer.size < w.capacity) (hs : holds (joined pieces) t)
      (hoffset : w.commitOffset = total pieces)
      (hbytes : joined pieces ++ w.buffer = handedOver calls)
  | unflushed (hw : w.IsStuck handle) (hbuffer : w.buffer = .empty)
      (hs : holds (handedOver calls) t) (hoffset : w.commitOffset = (handedOver calls).size)
      (hbarrier : FollowedBy (Exchange.IsBarrier handle.fd calls) t.exchanges)
  | lost {held} (hw : w.IsStuck handle) (hbuffer : w.buffer.size ≠ 0) (hs : holds held t)

/-- The file is complete, and the last write was followed by a barrier. -/
structure Delivered {σ : Type} (fd : Fd) (holds : ByteArray → Traced σ → Prop)
    (calls : List (WriteCall × WriteAnswer)) (w : Writer) (t : Traced σ) : Prop where
  holds : holds (handedOver calls) t
  position : w.position = (handedOver calls).size
  barrier : FollowedBy (Exchange.IsBarrier fd calls) t.exchanges

section Delivery

variable {σ : Type} {handle : Handle} {holds : ByteArray → Traced σ → Prop}
  {calls : List (WriteCall × WriteAnswer)} {w w' : Writer} {t t' : Traced σ}

private theorem Delivery.step (h : Delivery handle holds calls w t)
    (hholds : ∀ {held}, holds held t → holds held t') (hsame : t'.exchanges = t.exchanges) :
    Delivery handle holds calls w t' := by
  cases h with
  | underway hw hfd hsize hs hoffset hbytes =>
    exact .underway hw hfd hsize (hholds hs) hoffset hbytes
  | unflushed hw hbuffer hs hoffset hbarrier =>
    exact .unflushed hw hbuffer (hholds hs) hoffset (hsame.symm ▸ hbarrier)
  | lost hw hbuffer hs => exact .lost hw hbuffer (hholds hs)

private theorem Delivery.exists_holds (h : Delivery handle holds calls w t) :
    ∃ held, holds held t := by
  cases h with
  | underway _ _ _ hs => exact ⟨_, hs⟩
  | unflushed _ _ hs => exact ⟨_, hs⟩
  | lost _ _ hs => exact ⟨_, hs⟩

private theorem Delivery.isClosed (h : Delivery handle holds calls w t) : w.isClosed = false := by
  cases h with
  | underway hw => exact hw.isClosed
  | unflushed hw => exact hw.isClosed
  | lost hw => exact hw.isClosed

variable [StoreClient σ]

private theorem TakesFronts.exists_of_writeFails (h : TakesFronts handle.fd holds)
    {pieces : List ByteArray} {piece : ByteArray} (hs : holds (joined pieces) t)
    (hwrite : Writer.WriteFails handle.fd piece (total pieces) t t') : ∃ held, holds held t' := by
  obtain ⟨answer, hwrite, -⟩ := hwrite
  have hend : total pieces ≤ (joined pieces).size := by simp
  obtain ⟨held, hlost, -⟩ := h.exists_of_write hs hend piece
  rw [hwrite] at hlost
  exact ⟨held, hlost⟩

section Underway

variable {pieces : List ByteArray} {call : WriteCall} {result : Except VolumeError Unit}
  (hstore : TakesFronts handle.fd holds) (hw : w.IsSound handle) (hfd : w.fd = handle.fd)
  (hsize : w.buffer.size < w.capacity) (hs : holds (joined pieces) t)
  (hoffset : w.commitOffset = total pieces)
  (hbytes : joined pieces ++ w.buffer = handedOver calls)

include hstore hw hfd hsize hs hoffset hbytes

private theorem Delivery.take {bytes : ByteArray} (hrequest : call.request = .take bytes)
    (h : w.writeBytes t bytes = (result, w', t')) :
    Delivery handle holds (calls ++ [(call, call.answer result)]) w' t' := by
  have hfilling := Writer.filling_writeBytes hw hstore.ledger hsize hs hoffset bytes
  rw [h] at hfilling
  cases hfilling with
  | done hnew hrest hjoined hs' =>
    refine .underway ⟨hw.handle, hw.isClosed, hw.isBroken⟩ hfd hrest hs' rfl ?_
    rw [handedOver_concat_ok, WriteCall.handed, hrequest, WriteRequest.handed, ← hbytes,
      joined_append, ByteArray.append_assoc, hjoined, ByteArray.append_assoc]
  | broken hs' hne hwrite =>
    obtain ⟨held, hlost⟩ := hstore.exists_of_writeFails hs' hwrite
    exact .lost ⟨hw.handle, hw.isClosed, rfl⟩ hne hlost

private theorem Delivery.flush (hrequest : call.request = .flush)
    (h : w.flush t = (result, w', t')) :
    Delivery handle holds (calls ++ [(call, call.answer result)]) w' t' := by
  have hsame : handedOver (calls ++ [(call, call.answer result)]) = handedOver calls := by
    rw [handedOver_concat, WriteCall.handed, hrequest, WriteRequest.handed, ite_self,
      ByteArray.append_empty]
  have hall : joined (pieces ++ remainder w.buffer) = handedOver calls := by
    rw [joined_append, joined_remainder, hbytes]
  have hflushing := Writer.flushing_flush hw hstore.ledger hs hoffset
  rw [h] at hflushing
  cases hflushing with
  | done hs' =>
    refine .underway ⟨hw.handle, hw.isClosed, hw.isBroken⟩ hfd ?_ hs' rfl ?_
    · exact Nat.lt_of_le_of_lt (Nat.zero_le _) hsize
    · rw [hsame, hall, ByteArray.append_empty]
  | notDurable hs' hflush =>
    have hkept := hstore.flush hs'
    obtain ⟨s', -, rfl⟩ := Traced.flush_eq_iff.1 hflush
    rw [hflush, hall] at hkept
    refine .unflushed ⟨hw.handle, hw.isClosed, rfl⟩ rfl (hsame.symm ▸ hkept) ?_
      (followedBy_concat (.reported hrequest ?_) rfl)
    · rw [hsame, ← hall, size_joined]
    · rw [hfd]
      exact List.mem_append_right _ List.mem_cons_self
  | notCommitted hne hwrite =>
    obtain ⟨held, hlost⟩ := hstore.exists_of_writeFails hs hwrite
    exact .lost ⟨hw.handle, hw.isClosed, rfl⟩ hne hlost

private theorem Delivery.perform (h : call.request.perform w t = (result, w', t')) :
    Delivery handle holds (calls ++ [(call, call.answer result)]) w' t' := by
  cases hrequest : call.request with
  | take bytes =>
    rw [hrequest] at h
    exact Delivery.take hstore hw hfd hsize hs hoffset hbytes hrequest h
  | flush =>
    rw [hrequest] at h
    exact Delivery.flush hstore hw hfd hsize hs hoffset hbytes hrequest h
  | outside =>
    rw [hrequest] at h
    cases h
    refine .underway hw hfd hsize hs hoffset ?_
    rw [hbytes, handedOver_concat_error]

end Underway

private theorem Delivery.call {o : Output} (h : Delivery handle holds calls o.writer t)
    (hstore : TakesFronts handle.fd holds) (call : WriteCall) :
    Delivery handle holds (calls ++ [(call, (call.on o t).1)]) (call.on o t).2.1.writer
      (call.on o t).2.2 := by
  cases h with
  | underway hw hfd hsize hs hoffset hbytes =>
    rw [WriteCall.on_eq hsize]
    simp only [Output.writer_withWriter]
    exact Delivery.perform hstore hw hfd hsize hs hoffset hbytes rfl
  | unflushed hw hbuffer hs hoffset hbarrier =>
    obtain ⟨error, hon⟩ := WriteCall.on_of_refused hw.checkWritable t call
    rw [hon]
    have hsame := handedOver_concat_error calls call error
    refine .unflushed hw hbuffer (hsame.symm ▸ hs) (hsame.symm ▸ hoffset)
      (hbarrier.mono fun e he => ?_)
    cases he with
    | done => exact .done
    | reported hrequest hcall => exact .reported hrequest (List.mem_append_left _ hcall)
  | lost hw hbuffer hs =>
    obtain ⟨error, hon⟩ := WriteCall.on_of_refused hw.checkWritable t call
    rw [hon]
    exact .lost hw hbuffer hs

private theorem Delivery.run {environment : Traced σ → Traced σ → Prop} {o₀ o : Output}
    {t₀ : Traced σ} (h : Delivery handle holds [] o₀.writer t₀)
    (hstore : TakesFronts handle.fd holds)
    (henvironment : ∀ {t t'}, environment t t' →
      (∀ {held}, holds held t → holds held t') ∧ t'.exchanges = t.exchanges)
    (hrun : Run environment o₀ t₀ calls o t) : Delivery handle holds calls o.writer t := by
  induction hrun with
  | start => exact h
  | call _ call ih => exact ih.call hstore call
  | step _ hstep ih => exact ih.step (henvironment hstep).1 (henvironment hstep).2

private theorem Writer.handle_commit (w : Writer) (t : Traced σ) :
    (w.commit t).2.1.handle = w.handle := by
  unfold Writer.commit
  repeat' split
  all_goals rfl

/-- Commits and flushes end with a flush of the store. -/
theorem Writer.exists_flush_of_commitAndFlush (hw : w.handle = some handle)
    (h : w.commitAndFlush t = (.ok (), w', t')) :
    ∃ t₁, StoreClient.flush t₁ handle.fd = (.ok (), t') := by
  have hcommit := w.handle_commit t
  rw [hw] at hcommit
  unfold Writer.commitAndFlush at h
  generalize w.commit t = result at hcommit h
  obtain ⟨e | ⟨⟨⟩⟩, w₁, t₁⟩ := result
  · cases h
  · simp only at h
    split at h
    · cases h
    · rename_i handle' hhandle
      obtain rfl : handle' = handle := Option.some.inj (hhandle.symm.trans hcommit)
      split at h
      · rename_i hflush
        cases h
        exact ⟨t₁, hflush⟩
      · cases h

private theorem Delivery.settle (h : Delivery handle holds calls w t)
    (hstore : TakesFronts handle.fd holds) :
    (w.settle t).2.1.handle = some handle ∧ (∃ held, holds held (w.settle t).2.2) ∧
      ((w.settle t).1 = .ok () → Delivered handle.fd holds calls w (w.settle t).2.2) := by
  cases h with
  | @underway pieces hw hfd hsize hs hoffset hbytes =>
    have hall : joined (pieces ++ remainder w.buffer) = handedOver calls := by
      rw [joined_append, joined_remainder, hbytes]
    have hsettle : w.settle t = w.commitAndFlush t := by rw [Writer.settle, hw.isBroken]; rfl
    have hflushing := Writer.flushing_commitAndFlush hw.handle hstore.ledger hs hoffset
    rw [hsettle]
    generalize hresult : w.commitAndFlush t = result at hflushing
    cases hflushing with
    | @done t' hs' =>
      refine ⟨hw.handle, ⟨_, hs'⟩, fun _ => ⟨hall ▸ hs', ?_, ?_⟩⟩
      · rw [Writer.position, hoffset, ← hbytes, ByteArray.size_append, size_joined]
      · obtain ⟨t₁, hflush⟩ := Writer.exists_flush_of_commitAndFlush hw.handle hresult
        obtain ⟨s', -, rfl⟩ := Traced.flush_eq_iff.1 hflush
        exact followedBy_concat .done rfl
    | notDurable hs' hflush =>
      have hkept := hstore.flush hs'
      rw [hflush] at hkept
      exact ⟨hw.handle, ⟨_, hkept⟩, by simp⟩
    | notCommitted hne hwrite =>
      obtain ⟨held, hlost⟩ := hstore.exists_of_writeFails hs hwrite
      exact ⟨hw.handle, ⟨held, hlost⟩, by simp⟩
  | unflushed hw hbuffer hs hoffset hbarrier =>
    have hsettle : w.settle t = (.ok (), w, t) := by
      simp [Writer.settle, hw.isBroken, hbuffer]
    rw [hsettle]
    refine ⟨hw.handle, ⟨_, hs⟩, fun _ => ⟨hs, ?_, hbarrier⟩⟩
    rw [Writer.position, hbuffer, hoffset]
    rfl
  | lost hw hbuffer hs =>
    have hsettle : w.settle t = (.error (.streamBroken w.path), w, t) := by
      simp [Writer.settle, hw.isBroken, hbuffer]
    rw [hsettle]
    exact ⟨hw.handle, ⟨_, hs⟩, by simp⟩

private theorem Delivery.close (h : Delivery handle holds calls w t)
    (hstore : TakesFronts handle.fd holds) :
    (∃ held, holds held (w.close t).2.2) ∧
      ((w.close t).1 = .ok () → Delivered handle.fd holds calls w (w.close t).2.2) := by
  obtain ⟨hhandle, ⟨held, hheld⟩, hdelivered⟩ := h.settle hstore
  -- Settling is given a name, or unification would unfold it.
  generalize hsettle : w.settle t = result at hhandle hheld hdelivered
  obtain ⟨settled, w', t'⟩ := result
  obtain ⟨hclosed, hresult⟩ := Writer.close_of_settle h.isClosed hsettle hhandle
  rw [hclosed]
  refine ⟨⟨held, hstore.close hheld⟩, fun hok => ?_⟩
  obtain ⟨hholds, hposition, hbarrier⟩ := hdelivered (hresult.1 hok).1
  exact ⟨hstore.close hholds, hposition, FollowedBy.concat hbarrier rfl⟩

end Delivery

private theorem Memory.Store.isShutDown_of_unlink {s s' : Store} {path : String}
    (h : s.unlink path = (.ok (), s')) : s'.isShutDown = false := by
  simp only [Store.unlink] at h
  split at h
  · cases h
  · rename_i hup
    split at h
    · cases h
    · obtain rfl := congrArg Prod.snd h
      exact Bool.eq_false_iff.2 hup

section Publication

variable {kind : Exchange → Prop} {a : AtomicWriter} {t t' : Traced (Faltering Store)}

def Traced.tree (t : Traced (Faltering Store)) : Tree := t.store.store.tree

def Traced.HoldsAlone (fd : Fd) (path : String) (entries : List String → Option Entry)
    (held : ByteArray) (t : Traced (Faltering Store)) : Prop :=
  t.store.store.HoldsAlone fd path entries held

private theorem Traced.takesFronts_alone (fd : Fd) (path : String)
    (entries : List String → Option Entry) :
    TakesFronts fd (Traced.HoldsAlone fd path entries) :=
  Traced.takesFronts (Faltering.takesFronts (Store.takesFronts_alone fd path entries))

private theorem Traced.rename_cases {source target : String} {answer : Except Errno Unit}
    (h : StoreClient.rename t source target = (answer, t')) :
    (∃ e, answer = .error e ∧ t'.tree = t.tree) ∨
      ∃ tree now, t.tree.rename source target now = (.ok (), tree) ∧ answer = .ok () ∧
        t'.tree = tree := by
  obtain rfl : _ = answer := congrArg Prod.fst h
  obtain rfl : _ = t' := congrArg Prod.snd h
  exact (t.store.store.tree_rename source target).imp_right fun ⟨tree, htree⟩ => ⟨tree, _, htree⟩

private theorem Traced.unlink_cases {path : String} {answer : Except Errno Unit}
    (h : StoreClient.unlink t path = (answer, t')) :
    (∃ e, answer = .error e ∧ t'.tree = t.tree) ∨ ∃ tree, t.tree.unlink path = (.ok (), tree) ∧
      answer = .ok () ∧ t'.tree = tree ∧ t'.store.store.isShutDown = false := by
  obtain rfl : _ = answer := congrArg Prod.fst h
  obtain rfl : _ = t' := congrArg Prod.snd h
  refine (t.store.store.tree_unlink path).imp_right fun ⟨tree, htree, hok, hsame⟩ => ?_
  exact ⟨tree, htree, hok, hsame, Store.isShutDown_of_unlink (Prod.ext hok rfl)⟩

/-- The second move of a file cannot fail: what was in its way is gone. -/
theorem exists_move_of_unlink {e : Entry} {tree : Tree} (ht : t.tree.Forest)
    (he : t.tree.entryAt? (components a.temporaryPath) = some e)
    (hbeside : Beside a.finalPath a.temporaryPath)
    (hunlink : t.tree.unlink a.finalPath = (.ok (), tree)) (htree : t'.tree = tree)
    (hup : t'.store.store.isShutDown = false) :
    t'.tree.Forest ∧ t'.tree.entryAt? (components a.temporaryPath) = some e ∧
      (StoreClient.rename t' a.temporaryPath a.finalPath).1 = .ok () := by
  obtain rfl := htree
  obtain ⟨hentry, tree, hrename⟩ :=
    hbeside.exists_rename_of_unlink ht he hunlink t'.store.store.clock.now
  refine ⟨(Tree.removal_of_unlink ht hunlink).forest, hentry, ?_⟩
  show (t'.store.store.rename a.temporaryPath a.finalPath).1 = .ok ()
  rw [Store.rename_eq hup]
  exact congrArg Prod.fst hrename

/-- Publishing puts the temporary file into its place, or leaves the tree as it was. -/
theorem publish_cases {e : Entry} (ht : t.tree.Forest)
    (he : t.tree.entryAt? (components a.temporaryPath) = some e) (hfile : e.bytes ≠ none)
    (hbeside : Beside a.finalPath a.temporaryPath) {answer : Except VolumeError Unit}
    (h : a.publish t = (answer, t')) :
    answer = .ok () ∧ t'.tree.entryAt? (components a.finalPath) = some e ∨
      (∃ error, answer = .error error) ∧ t'.tree = t.tree := by
  have hmoved {t t' : Traced (Faltering Store)} (ht : t.tree.Forest)
      (he : t.tree.entryAt? (components a.temporaryPath) = some e)
      (h : StoreClient.rename t a.temporaryPath a.finalPath = (.ok (), t')) :
      t'.tree.entryAt? (components a.finalPath) = some e := by
    obtain ⟨code, hcode, -⟩ | ⟨tree, now, hrename, -, htree⟩ := Traced.rename_cases h
    · cases hcode
    · rw [htree, Tree.entryAt?_rename_file ht hrename he hfile, if_pos rfl]
  unfold AtomicWriter.publish AtomicWriter.moveIntoPlace at h
  generalize hmove : StoreClient.rename t a.temporaryPath a.finalPath = outcome at h
  obtain ⟨code | ⟨⟨⟩⟩, t₁⟩ := outcome
  · have htree₁ : t₁.tree = t.tree := by
      obtain ⟨-, -, hsame⟩ | ⟨-, -, -, hcode, -⟩ := Traced.rename_cases hmove
      · exact hsame
      · cases hcode
    simp only at h
    split at h
    · cases h
      exact .inr ⟨⟨_, rfl⟩, htree₁⟩
    · generalize hunlink : StoreClient.unlink t₁ a.finalPath = outcome at h
      obtain ⟨answer₂, t₂⟩ := outcome
      obtain ⟨code₂, rfl, htree₂⟩ | ⟨tree, htree, rfl, htree₂, hup⟩ := Traced.unlink_cases hunlink
      · cases h
        exact .inr ⟨⟨_, rfl⟩, htree₂.trans htree₁⟩
      · obtain ⟨ht₂, he₂, hok⟩ := exists_move_of_unlink (htree₁ ▸ ht) (htree₁ ▸ he) hbeside htree
          htree₂ hup
        dsimp only at h
        generalize hmove₂ : StoreClient.rename t₂ a.temporaryPath a.finalPath = outcome at h hok
        obtain ⟨answer₃, t₃⟩ := outcome
        obtain rfl : answer₃ = .ok () := hok
        cases h
        exact .inl ⟨rfl, hmoved ht₂ he₂ hmove₂⟩
  · cases h
    exact .inl ⟨rfl, hmoved ht he hmove⟩

private theorem FollowedBy.publish (h : FollowedBy kind t.exchanges) (a : AtomicWriter) :
    FollowedBy kind (a.publish t).2.exchanges := by
  have hrename {t : Traced (Faltering Store)} (h : FollowedBy kind t.exchanges) :
      FollowedBy kind (a.moveIntoPlace t).2.exchanges := h.concat rfl
  have hunlink {t : Traced (Faltering Store)} (h : FollowedBy kind t.exchanges) :
      FollowedBy kind (StoreClient.unlink t a.finalPath).2.exchanges := h.concat rfl
  have hfirst := hrename h
  unfold AtomicWriter.publish
  generalize a.moveIntoPlace t = outcome at hfirst ⊢
  obtain ⟨code | ⟨⟨⟩⟩, t₁⟩ := outcome
  · dsimp only
    split
    · exact hfirst
    · have hsecond := hunlink hfirst
      generalize StoreClient.unlink t₁ a.finalPath = outcome at hsecond ⊢
      obtain ⟨code | ⟨⟨⟩⟩, t₂⟩ := outcome
      · exact hsecond
      · have hthird := hrename hsecond
        dsimp only
        generalize a.moveIntoPlace t₂ = outcome at hthird ⊢
        obtain ⟨code | ⟨⟨⟩⟩, t₃⟩ := outcome
        · exact hthird
        · exact hthird
  · exact hfirst

private theorem entryAt?_discard (ht : t.tree.Forest)
    (hne : components a.finalPath ≠ components a.temporaryPath) (failure : VolumeError) :
    (a.discard t failure).2.tree.entryAt? (components a.finalPath) =
      t.tree.entryAt? (components a.finalPath) := by
  unfold AtomicWriter.discard AtomicWriter.removeTemporary
  generalize hunlink : StoreClient.unlink t a.temporaryPath = outcome
  obtain ⟨answer, t₁⟩ := outcome
  obtain ⟨code, rfl, hsame⟩ | ⟨tree, htree, rfl, hsame, -⟩ := Traced.unlink_cases hunlink
  · dsimp only
    split
    · rename_i hremoved
      split at hremoved <;> cases hremoved
      rw [hsame]
    · rename_i hremoved
      split at hremoved <;> cases hremoved
      rw [hsame]
  · dsimp only
    rw [hsame, (Tree.removal_of_unlink ht htree).entryAt?, if_neg hne]

/-- What closing an atomic stream leaves at its final path. -/
theorem Delivery.close_atomic {handle : Handle} {entries : List String → Option Entry}
    {calls : List (WriteCall × WriteAnswer)} (hopen : a.isFinished = false)
    (hbeside : Beside a.finalPath a.temporaryPath)
    (h : Delivery handle (Traced.HoldsAlone handle.fd a.temporaryPath entries) calls a.inner t) :
    ((a.close t).1 = .ok () →
      (∃ e, (a.close t).2.2.tree.entryAt? (components a.finalPath) = some e ∧
        e.bytes = some (handedOver calls)) ∧
      a.inner.position = (handedOver calls).size ∧
      FollowedBy (Exchange.IsBarrier handle.fd calls) (a.close t).2.2.exchanges) ∧
    ((a.close t).1 ≠ .ok () → (a.close t).2.2.tree.entryAt? (components a.finalPath) =
      entries (components a.finalPath)) := by
  have hne := hbeside.components_ne
  obtain ⟨⟨held, hheld⟩, hdelivered⟩ := h.close (Traced.takesFronts_alone _ _ _)
  unfold AtomicWriter.close
  rw [hopen]
  generalize a.inner.close t = result at hheld hdelivered ⊢
  obtain ⟨e | ⟨⟨⟩⟩, inner, t₁⟩ := result
  · refine ⟨fun hok => ?_, fun _ => ?_⟩
    · simp only [Bool.false_eq_true, if_false, reduceCtorEq] at hok
    · exact (entryAt?_discard hheld.forest hne e).trans (hheld.others _ hne)
  · obtain ⟨hholds, hposition, hbarrier⟩ := hdelivered rfl
    obtain ⟨file, hentry, hbytes, -⟩ := hholds.entry
    have hfile : file.bytes ≠ none := by simp [hbytes]
    have hkept := FollowedBy.publish hbarrier { a with inner, isFinished := true }
    generalize hpublish : AtomicWriter.publish { a with inner, isFinished := true } t₁ = outcome
      at hkept
    obtain ⟨answer, t₂⟩ := outcome
    obtain ⟨rfl, hfinal⟩ | ⟨⟨error, rfl⟩, hsame⟩ :=
      publish_cases hholds.forest hentry hfile hbeside hpublish
    · simp only [Bool.false_eq_true, if_false, hpublish]
      exact ⟨fun _ => ⟨⟨file, hfinal, hbytes⟩, hposition, hkept⟩, fun hne => absurd rfl hne⟩
    · simp only [Bool.false_eq_true, if_false, hpublish]
      refine ⟨fun hok => ?_, fun _ => ?_⟩
      · simp only [reduceCtorEq] at hok
      · have hforest : t₂.tree.Forest := hsame ▸ hholds.forest
        refine (entryAt?_discard hforest hne error).trans ?_
        rw [hsame]
        exact hholds.others _ hne

end Publication

section Volume

variable {v v' : Volume} {path : String} {options : CreateOptions} {token : Token}
  {s s₀ : Faltering Store} {t : Traced (Faltering Store)}
  {calls : List (WriteCall × WriteAnswer)} {o₀ o : Output}

private theorem holdsAlone_of_openFile {c : Creation} {path : String} {mode : UInt32}
    {retries : Nat} {handle : Handle} (hs : s.store.tree.Forest)
    (h : c.openFile path mode retries s = (.ok handle, s₀)) :
    s₀.store.HoldsAlone handle.fd path s₀.store.tree.entryAt? .empty := by
  obtain ⟨s₁, hforest, -, hopened⟩ := Creation.openFile_eq_ok
    (fun s : Faltering Store => s.store.tree.Forest)
    (by
      intro s s' code hs hfailed
      obtain rfl := congrArg Prod.snd hfailed
      exact Store.forest_openPath hs _ _ _)
    (by
      intro s parent hs _
      exact (Operation.mkdirs parent _).forest_on hs)
    hs h
  have hanswer := congrArg Prod.fst hopened
  have hstore := congrArg (·.2.store) hopened
  obtain ⟨e, hempty, hwritable, -⟩ := Store.writableAt_of_openPath hforest
    (show s₁.store.openPath path Creation.flags mode = (.ok handle.fd, s₀.store) from
      Prod.ext hanswer hstore)
  exact ⟨hwritable.holdsAt hempty, fun _ _ => rfl⟩

private theorem delivery_new {σ : Type} {holds : ByteArray → Traced σ → Prop} {t : Traced σ}
    (handle : Handle) (bufferSize : Nat) (hs : holds .empty t) :
    Delivery handle holds [] (.new handle 0 bufferSize) t := by
  refine .underway ⟨rfl, rfl, rfl⟩ rfl ?_ (show holds (joined []) t from hs) rfl rfl
  exact Nat.lt_of_lt_of_le Nat.zero_lt_one (Nat.le_max_right _ _)

def Traced.Refaulted (t t' : Traced (Faltering Store)) : Prop :=
  ∃ faults, t' = { t with store.store.faults := faults }

private theorem Delivery.refaulted {handle : Handle} {path : String}
    {entries : List String → Option Entry}
    (h : Delivery handle (Traced.HoldsAlone handle.fd path entries) [] o₀.writer ⟨s₀, []⟩)
    (hrun : Run Traced.Refaulted o₀ ⟨s₀, []⟩ calls o t) :
    Delivery handle (Traced.HoldsAlone handle.fd path entries) calls o.writer t := by
  refine h.run (Traced.takesFronts_alone _ _ _) ?_ hrun
  rintro t t' ⟨faults, rfl⟩
  exact ⟨fun hheld => ⟨hheld.toHoldsAt.congr rfl fun _ hfile => hfile, hheld.others⟩, rfl⟩

/-- A stream that was closed without a failure has all bytes that it took in the file at its path,
and after the last write of the store came a flush that has succeeded, or whose failure was the
answer to a call on the stream. An atomic stream that was closed with a failure has replaced
nothing. -/
theorem durable_of_close (hs : Reachable s.store)
    (hcreate : v.create s path options token = (.ok o₀, v', s₀))
    (hrun : Run Traced.Refaulted o₀ ⟨s₀, []⟩ calls o t) :
    let target := components (Path.ofText path)
    let closed := o.close t
    (closed.1 = .ok () →
      (∃ e, closed.2.2.tree.entryAt? target = some e ∧ e.bytes = some (handedOver calls)) ∧
      o.position = (handedOver calls).size ∧
      FollowedBy (Exchange.IsBarrier o₀.writer.fd calls) closed.2.2.exchanges) ∧
    (o.isAtomic = true → closed.1 ≠ .ok () →
      closed.2.2.tree.entryAt? target = t.tree.entryAt? target) := by
  obtain ⟨handle, hopen, ho⟩ := Volume.create_eq_ok hcreate
  obtain ⟨w, hw⟩ := hrun.exists_withWriter
  cases hatomic : options.atomic with
  | false =>
    simp only [hatomic, Bool.false_eq_true, if_false] at hopen ho
    subst ho
    subst hw
    have h := (delivery_new handle _ (holdsAlone_of_openFile hs.forest hopen)).refaulted hrun
    obtain ⟨-, hdelivered⟩ := h.close (Traced.takesFronts_alone _ _ _)
    refine ⟨fun hok => ?_, fun hatomic => absurd hatomic Bool.false_ne_true⟩
    obtain ⟨hholds, hposition, hbarrier⟩ := hdelivered hok
    obtain ⟨e, hentry, hbytes, -⟩ := hholds.entry
    exact ⟨⟨e, hentry, hbytes⟩, hposition, hbarrier⟩
  | true =>
    simp only [hatomic, if_true] at hopen ho
    subst ho
    subst hw
    have h := (delivery_new handle _ (holdsAlone_of_openFile hs.forest hopen)).refaulted hrun
    obtain ⟨hok, herror⟩ := Delivery.close_atomic
      (a := ⟨w, token.temporaryPath (Path.ofText path), Path.ofText path, false⟩) rfl
      (beside_temporaryPath token path) h
    obtain ⟨held, hheld⟩ := h.exists_holds
    refine ⟨hok, fun _ hfailed => (herror hfailed).trans ?_⟩
    exact (hheld.others _ (beside_temporaryPath token path).components_ne).symm

/-- Four bytes in a file that the stream writes directly. -/
theorem durable_of_close_direct_stream :
    let client : Faltering Store := { store := .new {}, lapse := fun _ => .answered }
    let created := Volume.tiny.create client "/f" {} ⟨0⟩
    let first := Output.direct (.new ⟨⟨3⟩, "/f"⟩ 0 2)
    let ran := WriteCall.onEach first (Traced.mk created.2.2 [])
      [.bytes "abc".toUTF8, .flush, .byte 100]
    let closed := ran.2.1.close ran.2.2
    created.1 = .ok first ∧ closed.1 = .ok () ∧
      (closed.2.2.tree.entryAt? ["f"]).bind Entry.bytes = some "abcd".toUTF8 ∧
      FollowedBy (Exchange.IsBarrier ⟨3⟩ ran.1) closed.2.2.exchanges := by
  intro client created first ran closed
  have hcreated : created.1 = .ok first := by decide +kernel
  have hcreate : created = (.ok first, created.2.1, created.2.2) := by rw [← hcreated]
  have hclosed : closed.1 = .ok () := by decide +kernel
  have htarget : components (Path.ofText "/f") = ["f"] := by decide +kernel
  have hstart : Run Traced.Refaulted first ⟨created.2.2, []⟩ [] first ⟨created.2.2, []⟩ := .start
  obtain ⟨hdone, -⟩ := durable_of_close (s := client) (Reachable.new {}) hcreate
    (hstart.onEach [.bytes "abc".toUTF8, .flush, .byte 100])
  obtain ⟨⟨e, hentry, hbytes⟩, -, hbarrier⟩ := hdone hclosed
  rw [htarget] at hentry
  refine ⟨hcreated, hclosed, ?_, hbarrier⟩
  rw [hentry, Option.bind_some, hbytes]
  decide +kernel

/-- A file that was there before is replaced although no flush has succeeded: after a flush that
failed there is nothing left to commit, and the close does not flush again. -/
theorem closed_without_successful_flush :
    let client : Faltering Store :=
      { store := Store.putFile (.new {}) "/f" "old".toUTF8
        lapse := fun n => if n = 1 then .refused .eio else .answered }
    let created := Volume.tiny.create client "/f" { atomic := true } ⟨0⟩
    let first := Output.atomic (.mk (.new ⟨⟨3⟩, (⟨0⟩ : Token).temporaryPath "/f"⟩ 0 2)
      ((⟨0⟩ : Token).temporaryPath "/f") "/f" false)
    let ran := WriteCall.onEach first (Traced.mk created.2.2 []) [.bytes "ab".toUTF8, .flush]
    let closed := ran.2.1.close ran.2.2
    created.1 = .ok first ∧
      Run Traced.Refaulted first ⟨created.2.2, []⟩ ran.1 ran.2.1 ran.2.2 ∧ closed.1 = .ok () ∧
      closed.2.2.store.store.contents? "/f" = some "ab".toUTF8 ∧
      ¬ FollowedBy (· = .flush ⟨3⟩ (.ok ())) closed.2.2.exchanges := by
  intro client created first ran closed
  have hstart : Run Traced.Refaulted first ⟨created.2.2, []⟩ [] first ⟨created.2.2, []⟩ := .start
  have hwrite : closed.2.2.exchanges.any Exchange.isWrite = true := by decide +kernel
  have hfailed : closed.2.2.exchanges.all
      (fun e => !e.isWork ⟨3⟩ || e.isWrite || e.isFailedFlush) = true := by decide +kernel
  have hrun := hstart.onEach [.bytes "ab".toUTF8, .flush]
  refine ⟨by decide +kernel, hrun, by decide +kernel, by decide +kernel, ?_⟩
  intro hfollowed
  obtain ⟨e, hmem, hwrite⟩ := List.any_eq_true.1 hwrite
  obtain ⟨before, after, hsplit⟩ := List.append_of_mem hmem
  obtain ⟨later, hlater, rfl⟩ := hfollowed before e after hsplit hwrite
  have hflush := List.all_eq_true.1 hfailed (.flush ⟨3⟩ (.ok ()))
    (hsplit ▸ List.mem_append_right _ (List.mem_cons_of_mem _ hlater))
  simp [Exchange.isWork, Exchange.isWrite, Exchange.isFailedFlush] at hflush

end Volume
end VolumeFs
