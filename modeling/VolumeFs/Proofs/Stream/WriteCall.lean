import VolumeFs.Proofs.Stream.Commit
import VolumeFs.Stream.Output

/-!
# Runs of calls on a write stream

The calls by which a stream is handed bytes or asked to make them durable, and runs of such calls
in any order. Between two calls of a run the store may change, as far as a relation allows it.
-/

namespace VolumeFs

-- Without it the instances below would depend on which other libraries are imported.
instance instDecidableEqByteArray : DecidableEq ByteArray :=
  ByteArray.instDecidableEq

deriving instance DecidableEq for Writer, AtomicWriter, Output

/-- A call on an open write stream. Calls for ranges are offered by direct streams only; nothing
here depends on that. -/
inductive WriteCall where
  | byte (byte : UInt8)
  | bytes (bytes : ByteArray)
  | range (bytes : ByteArray) (offset length : Nat)
  | flush
  /-- The bytes handed over as to a byte stream. -/
  | streamBytes (bytes : ByteArray)
  | streamFlush

inductive WriteAnswer where
  | done
  | taken (count : Nat)
  | refused (error : VolumeError)
  | failed (failure : StreamFailure)

inductive WriteRequest where
  | take (bytes : ByteArray)
  | flush
  /-- A range that does not lie within its bytes. -/
  | outside

namespace WriteAnswer

def isDone : WriteAnswer → Bool
  | done => true
  | taken _ => true
  | _ => false

def ofVolume : Except VolumeError Unit → WriteAnswer
  | .ok () => done
  | .error e => refused e

end WriteAnswer

namespace WriteRequest

def handed : WriteRequest → ByteArray
  | take bytes => bytes
  | flush => .empty
  | outside => .empty

variable {σ : Type} [StoreClient σ]

def expected (path : String) : WriteRequest → Except VolumeError Unit
  | outside => .error (.store path .einval)
  | _ => .ok ()

def perform (w : Writer) (s : σ) : WriteRequest → Except VolumeError Unit × Writer × σ
  | take bytes => w.writeBytes s bytes
  | flush => w.flush s
  | outside => (.error (.store w.path .einval), w, s)

end WriteRequest

namespace Output

variable {o : Output} {w w' : Writer}

@[simp] theorem withWriter_writer : o.withWriter o.writer = o := by
  cases o <;> rfl

@[simp] theorem writer_withWriter : (o.withWriter w).writer = w := by
  cases o <;> rfl

@[simp] theorem withWriter_withWriter : (o.withWriter w).withWriter w' = o.withWriter w' := by
  cases o <;> rfl

end Output

namespace WriteCall

def request : WriteCall → WriteRequest
  | byte b => .take ⟨#[b]⟩
  | bytes bs => .take bs
  | range bs offset length =>
    if offset + length ≤ bs.size then .take (bs.extract offset (offset + length)) else .outside
  | flush => .flush
  | streamBytes bs => .take bs
  | streamFlush => .flush

/-- The bytes that the stream has more after the call, if it succeeds. -/
def handed (call : WriteCall) : ByteArray := call.request.handed

def answer : WriteCall → Except VolumeError Unit → WriteAnswer
  | streamBytes bs, .ok () => .taken bs.size
  | streamBytes _, .error e => .failed (.ofVolume e)
  | streamFlush, .error e => .failed (.ofVolume e)
  | _, result => .ofVolume result

variable {σ : Type} [StoreClient σ]

def on (o : Output) (s : σ) : WriteCall → WriteAnswer × Output × σ
  | byte b =>
    let (result, o, s) := o.writeByte s b
    (.ofVolume result, o, s)
  | bytes bs =>
    let (result, o, s) := o.writeBytes s bs
    (.ofVolume result, o, s)
  | range bs offset length =>
    let (result, o, s) := o.onWriter s (·.writeRange · bs offset length)
    (.ofVolume result, o, s)
  | flush =>
    let (result, o, s) := o.flush s
    (.ofVolume result, o, s)
  | streamBytes bs =>
    match o.streamWrite s bs with
    | (.ok count, o, s) => (.taken count, o, s)
    | (.error failure, o, s) => (.failed failure, o, s)
  | streamFlush =>
    match o.streamFlush s with
    | (.ok (), o, s) => (.done, o, s)
    | (.error failure, o, s) => (.failed failure, o, s)

private theorem isDone_answer (call : WriteCall) (result : Except VolumeError Unit) :
    (call.answer result).isDone = true ↔ result = .ok () := by
  cases call <;> rcases result with e | ⟨⟨⟩⟩ <;>
    simp [answer, WriteAnswer.ofVolume, WriteAnswer.isDone]

theorem isDone_answer_ok (call : WriteCall) : (call.answer (.ok ())).isDone = true :=
  (call.isDone_answer _).2 rfl

theorem isDone_answer_error (call : WriteCall) (e : VolumeError) :
    (call.answer (.error e)).isDone = false := by
  rw [Bool.eq_false_iff, Ne, isDone_answer]
  simp

theorem handed_of_expected (call : WriteCall) (path : String) :
    (if (call.answer (call.request.expected path)).isDone then call.handed else .empty) =
      call.handed := by
  have hdone := isDone_answer call (call.request.expected path)
  unfold handed at hdone ⊢
  cases hrequest : call.request with
  | take bs => rw [hrequest] at hdone; rw [if_pos (hdone.2 rfl)]
  | flush => exact ite_self _
  | outside => exact ite_self _

/-- A call on a stream whose buffer is not full is what it comes down to. -/
theorem on_eq {o : Output} (hsize : o.writer.buffer.size < o.writer.capacity) (s : σ)
    (call : WriteCall) : call.on o s =
      let (result, w, s) := call.request.perform o.writer s
      (call.answer result, o.withWriter w, s) := by
  cases call with
  | byte b =>
    simp only [on, Output.writeByte, Output.onWriter, Writer.writeByte_eq_writeBytes hsize]
    rfl
  | bytes bs => rfl
  | range bs offset length =>
    simp only [on, Output.onWriter, Writer.writeRange, request]
    split <;> rfl
  | flush => rfl
  | streamBytes bs =>
    simp only [on, Output.streamWrite, Output.writeBytes, Output.onWriter, request,
      WriteRequest.perform]
    rcases o.writer.writeBytes s bs with ⟨e | ⟨⟨⟩⟩, w, s'⟩ <;> rfl
  | streamFlush =>
    simp only [on, Output.streamFlush, Output.flush, Output.onWriter, request,
      WriteRequest.perform]
    rcases o.writer.flush s with ⟨e | ⟨⟨⟩⟩, w, s'⟩ <;> rfl

theorem exists_withWriter (o : Output) (s : σ) (call : WriteCall) :
    ∃ w, (call.on o s).2.1 = o.withWriter w := by
  cases call with
  | byte b => exact ⟨_, rfl⟩
  | bytes bs => exact ⟨_, rfl⟩
  | range bs offset length => exact ⟨_, rfl⟩
  | flush => exact ⟨_, rfl⟩
  | streamBytes bs =>
    simp only [on]
    split <;> rename_i h
    · exact ⟨_, congrArg (·.2.1) h.symm⟩
    · exact ⟨_, congrArg (·.2.1) h.symm⟩
  | streamFlush =>
    simp only [on]
    split <;> rename_i h
    · exact ⟨_, congrArg (·.2.1) h.symm⟩
    · exact ⟨_, congrArg (·.2.1) h.symm⟩

theorem on_of_refused {o : Output} {e : VolumeError} (h : o.writer.checkWritable = .error e)
    (s : σ) (call : WriteCall) : ∃ e', call.on o s = (call.answer (.error e'), o, s) := by
  cases call with
  | byte b =>
    refine ⟨e, ?_⟩
    simp only [on, Output.writeByte, Output.onWriter, Writer.writeByte, h, Output.withWriter_writer]
    rfl
  | bytes bs =>
    refine ⟨e, ?_⟩
    simp only [on, Output.writeBytes, Output.onWriter, Writer.writeBytes, h,
      Output.withWriter_writer]
    rfl
  | range bs offset length =>
    simp only [on, Output.onWriter, Writer.writeRange, Writer.writeBytes, h]
    split
    · exact ⟨e, by simp only [Output.withWriter_writer]; rfl⟩
    · exact ⟨.store o.writer.path .einval, by simp only [Output.withWriter_writer]; rfl⟩
  | flush =>
    refine ⟨e, ?_⟩
    simp only [on, Output.flush, Output.onWriter, Writer.flush, h, Output.withWriter_writer]
    rfl
  | streamBytes bs =>
    refine ⟨e, ?_⟩
    simp only [on, Output.streamWrite, Output.writeBytes, Output.onWriter, Writer.writeBytes, h,
      Output.withWriter_writer]
    rfl
  | streamFlush =>
    refine ⟨e, ?_⟩
    simp only [on, Output.streamFlush, Output.flush, Output.onWriter, Writer.flush, h,
      Output.withWriter_writer]
    rfl

end WriteCall

def handedOver (calls : List (WriteCall × WriteAnswer)) : ByteArray :=
  Bytes.joined ((calls.filter (·.2.isDone)).map (·.1.handed))

@[simp] theorem handedOver_nil : handedOver [] = .empty := rfl

theorem handedOver_concat (calls : List (WriteCall × WriteAnswer)) (call : WriteCall)
    (answer : WriteAnswer) : handedOver (calls ++ [(call, answer)]) =
      handedOver calls ++ if answer.isDone then call.handed else .empty := by
  unfold handedOver
  cases h : answer.isDone <;> simp [h]

theorem handedOver_concat_ok (calls : List (WriteCall × WriteAnswer)) (call : WriteCall) :
    handedOver (calls ++ [(call, call.answer (.ok ()))]) = handedOver calls ++ call.handed := by
  rw [handedOver_concat, call.isDone_answer_ok, if_pos rfl]

theorem handedOver_concat_error (calls : List (WriteCall × WriteAnswer)) (call : WriteCall)
    (e : VolumeError) : handedOver (calls ++ [(call, call.answer (.error e))]) =
      handedOver calls := by
  rw [handedOver_concat, call.isDone_answer_error, if_neg Bool.false_ne_true,
    ByteArray.append_empty]

inductive Run {σ : Type} [StoreClient σ] (environment : σ → σ → Prop) (o : Output) (s : σ) :
    List (WriteCall × WriteAnswer) → Output → σ → Prop where
  | start : Run environment o s [] o s
  | call {calls o' s'} (h : Run environment o s calls o' s') (call : WriteCall) :
      Run environment o s (calls ++ [(call, (call.on o' s').1)]) (call.on o' s').2.1
        (call.on o' s').2.2
  | step {calls o' s' s''} (h : Run environment o s calls o' s') (hs : environment s' s'') :
      Run environment o s calls o' s''

theorem Run.exists_withWriter {σ : Type} [StoreClient σ] {environment : σ → σ → Prop}
    {o o' : Output} {s s' : σ} {calls : List (WriteCall × WriteAnswer)}
    (h : Run environment o s calls o' s') : ∃ w, o' = o.withWriter w := by
  induction h with
  | start => exact ⟨o.writer, Output.withWriter_writer.symm⟩
  | @call _ _ s' _ call ih =>
    obtain ⟨w, rfl⟩ := ih
    obtain ⟨w', hw'⟩ := WriteCall.exists_withWriter (o.withWriter w) s' call
    exact ⟨w', hw'.trans Output.withWriter_withWriter⟩
  | step _ _ ih => exact ih

def WriteCall.onEach {σ : Type} [StoreClient σ] (o : Output) (s : σ) :
    List WriteCall → List (WriteCall × WriteAnswer) × Output × σ
  | [] => ([], o, s)
  | call :: calls =>
    let (answer, o, s) := call.on o s
    let (answers, o, s) := onEach o s calls
    ((call, answer) :: answers, o, s)

theorem Run.onEach {σ : Type} [StoreClient σ] {environment : σ → σ → Prop} {o o' : Output}
    {s s' : σ} {calls : List (WriteCall × WriteAnswer)} (h : Run environment o s calls o' s')
    (more : List WriteCall) : Run environment o s (calls ++ (WriteCall.onEach o' s' more).1)
      (WriteCall.onEach o' s' more).2.1 (WriteCall.onEach o' s' more).2.2 := by
  induction more generalizing calls o' s' with
  | nil =>
    rw [WriteCall.onEach, List.append_nil]
    exact h
  | cons call more ih =>
    have hrest := ih (h.call call)
    rw [List.append_assoc, List.singleton_append] at hrest
    exact hrest

end VolumeFs
