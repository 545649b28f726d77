import VolumeFs.Proofs.Store.Traced
import VolumeFs.Proofs.Stream.Cursor

/-!
# Read streams are fresh

A file may change between the calls on a stream that reads it. A buffer keeps what was in it when
it is used again, and a window is given up by moving its two ends together; yet a stream hands out
nothing but what the file held when the stream last read from the store, and where the stream
moved, it reads again.
-/

namespace VolumeFs

open Bytes

/-- A store whose reads report what they did. As many bytes as it says lie at the front of the
buffer, and they are those of the file behind the descriptor. It may fail, and give fewer bytes
than there are. -/
structure ReadsTruly {σ : Type} [StoreClient σ] (fd : Fd) (held : σ → Option ByteArray)
    (holds : σ → Prop) : Prop where
  read : ∀ {s}, holds s → ∀ buffer offset, holds (StoreClient.read s fd buffer offset).2.2
  report : ∀ {s buffer offset count bytes s'}, holds s →
    StoreClient.read s fd buffer offset = (.ok count, bytes, s') → count ≤ buffer.size ∧
      (count ≠ 0 → ∃ file, held s = some file ∧ offset + count ≤ file.size ∧
        bytes.extract 0 count = file.extract offset (offset + count))
  getAttr : ∀ {s}, holds s → ∀ path, holds (StoreClient.getAttr s path).2

/-- What becomes of a read under a script: it fails, or the store gets the front of the buffer. -/
theorem Scripted.read_cases {σ : Type} [StoreClient σ] (s : Scripted σ) (fd : Fd)
    (buffer : ByteArray) (offset : Nat) :
    (∃ e script, StoreClient.read s fd buffer offset = (.error e, buffer, ⟨s.store, script⟩)) ∨
      ∃ passed script, passed ≤ buffer.size ∧ StoreClient.read s fd buffer offset =
        ((StoreClient.read s.store fd (buffer.extract 0 passed) offset).1,
          overlay buffer 0 (StoreClient.read s.store fd (buffer.extract 0 passed) offset).2.1,
          ⟨(StoreClient.read s.store fd (buffer.extract 0 passed) offset).2.2, script⟩) := by
  show (∃ e script, s.read fd buffer offset = _) ∨ ∃ passed script, _ ∧ s.read fd buffer offset = _
  unfold Scripted.read
  split
  · exact .inl ⟨_, _, rfl⟩
  · refine .inr ⟨_, _, ?_, rfl⟩
    split <;> omega

private theorem ReadsTruly.scripted {σ : Type} [StoreClient σ] {fd : Fd}
    {held : σ → Option ByteArray} {holds : σ → Prop} (h : ReadsTruly fd held holds) :
    ReadsTruly fd (fun s : Scripted σ => held s.store) fun s => holds s.store where
  read := by
    intro s hs buffer offset
    rcases s.read_cases fd buffer offset with ⟨e, script, hread⟩ | ⟨passed, script, -, hread⟩
    · rw [hread]
      exact hs
    · rw [hread]
      exact h.read hs _ offset
  report := by
    intro s buffer offset count bytes s' hs hread
    rcases s.read_cases fd buffer offset with ⟨e, script, hcase⟩ | ⟨passed, script, hpassed, hcase⟩
    · rw [hcase] at hread
      cases hread
    · rw [hcase] at hread
      have hkept := StoreClient.size_read s.store fd (buffer.extract 0 passed) offset
      generalize hinner : StoreClient.read s.store fd (buffer.extract 0 passed) offset = inner
        at hread hkept
      obtain ⟨answer, front, store⟩ := inner
      cases hread
      dsimp only at hkept
      obtain ⟨hcount, hfile⟩ := h.report hs hinner
      rw [ByteArray.size_extract] at hcount hkept
      refine ⟨by omega, fun hsome => ?_⟩
      obtain ⟨file, hheld, hsize, hbytes⟩ := hfile hsome
      refine ⟨file, hheld, hsize, ?_⟩
      rw [extract_overlay_zero buffer front (by omega), hbytes]
  getAttr := by
    intro s hs path
    show holds (s.guarded .getAttr fun store => StoreClient.getAttr store path).2.store
    unfold Scripted.guarded
    split
    · exact hs
    · exact h.getAttr hs path

/-- What the file holds that a descriptor stands for. -/
def Memory.Store.behind? (s : Store) (fd : Fd) : Option ByteArray :=
  match s.openFile? fd with
  | none => none
  | some opened =>
    match s.tree.nodes[opened.ino]? with
    | some { body := .file bytes, .. } => some bytes
    | _ => none

private theorem Memory.Store.readsTruly (fd : Fd) :
    ReadsTruly fd (·.behind? fd) fun s : Store => s.faults.readOverreport = none where
  read := by
    intro s hs buffer offset
    show (Store.read s fd buffer offset).2.2.faults.readOverreport = none
    unfold Store.read
    split
    · exact hs
    · dsimp only
      split
      · exact hs
      · split <;> exact hs
  report := by
    intro s buffer offset count bytes s' hs hread
    have hread : Store.read s fd buffer offset = (.ok count, bytes, s') := hread
    unfold Store.read at hread
    split at hread
    · cases hread
    · dsimp only at hread
      split at hread
      · cases hread
      · rename_i opened hopen
        split at hread
        · cases hread
        · cases hread
        · rename_i file mode atime mtime ctime hnode
          have hopen : s.openFile? fd = some opened := hopen
          rw [hs] at hread
          cases hread
          have hsize := size_slice file offset buffer.size
          refine ⟨by simp only [Option.getD_none]; omega, fun hsome => ⟨file, ?_, ?_, ?_⟩⟩
          · simp only [behind?, hopen, hnode]
          · simp only [Option.getD_none] at hsome ⊢
            omega
          · simp only [Option.getD_none, Nat.add_zero]
            rw [extract_overlay_zero _ _ (Nat.le_refl _), ByteArray.extract_zero_size,
              ← slice_eq_extract]
  getAttr := by
    intro s hs path
    show (Store.getAttr s path).2.faults.readOverreport = none
    unfold Store.getAttr
    repeat' split
    all_goals exact hs

def ReadCall.IsSeek : ReadCall → Prop
  | seek _ | streamSeek _ _ => True
  | _ => False

def ReadCall.Asks : ReadCall → Prop
  | byte => True
  | bytes dest | streamBytes dest => dest.size ≠ 0
  | range dest offset length => length ≠ 0 ∧ offset + length ≤ dest.size
  | _ => False

/-- The piece is what the file holds from the position on. -/
def Bytes.LiesAt (piece file : ByteArray) (position : Nat) : Prop :=
  position + piece.size ≤ file.size ∧ piece = file.extract position (position + piece.size)

/-- How a piece is given into a range of a destination: at the front of it, and nothing else is
touched, or not at all. -/
inductive GivesInto (dest : ByteArray) (offset length : Nat) :
    Except VolumeError (Option Nat) → ByteArray → ByteArray → Prop where
  | piece {piece : ByteArray} (h : piece.size ≤ length) :
      GivesInto dest offset length (.ok (some piece.size)) (overlay dest offset piece) piece
  | atEnd : GivesInto dest offset length (.ok none) dest .empty
  | failed (e : VolumeError) : GivesInto dest offset length (.error e) dest .empty

/-- What an answer gives to who called. -/
inductive ReadCall.Gives : ReadCall → ReadAnswer → ByteArray → Prop where
  | byte (b : UInt8) : Gives .byte (.byte (.ok (some b))) ⟨#[b]⟩
  | byteAtEnd : Gives .byte (.byte (.ok none)) .empty
  | byteFailed (e : VolumeError) : Gives .byte (.byte (.error e)) .empty
  | bytes {dest result dest' piece} (h : GivesInto dest 0 dest.size result dest' piece) :
      Gives (.bytes dest) (.bytes result dest') piece
  | streamBytes {dest result dest' piece} (h : GivesInto dest 0 dest.size result dest' piece) :
      Gives (.streamBytes dest)
        (.streamBytes ((result.mapError StreamFailure.ofVolume).map (·.getD 0)) dest') piece
  | range {dest offset length result dest' piece}
      (h : GivesInto dest offset length result dest' piece) :
      Gives (.range dest offset length) (.bytes result dest') piece
  | moved {position result} : Gives (.seek position) (.moved result) .empty
  | streamMoved {whence distance result} :
      Gives (.streamSeek whence distance) (.streamMoved result) .empty

structure ReadStep where
  call : ReadCall
  answer : ReadAnswer
  /-- Where the stream stood before the call. -/
  position : Nat
  /-- Where it stood after the call. -/
  landed : Nat
  /-- What was exchanged with the store. -/
  exchanges : List Exchange
  /-- What the file held then. -/
  file : Option ByteArray

namespace ReadStep

def reads (step : ReadStep) : List Exchange :=
  step.exchanges.filter fun
    | .read .. => true
    | _ => false

def Moves (step : ReadStep) : Prop := step.call.IsSeek ∧ step.landed ≠ step.position

/-- Of the steps that read from the store or move the stream, the last one is such. -/
def Last (such : ReadStep → Prop) (steps : List ReadStep) : Prop :=
  ∃ earlier step later, steps = earlier ++ step :: later ∧ such step ∧
    ∀ other ∈ later, other.reads = [] ∧ ¬ other.Moves

/-- The stream read from the store when the file held these bytes, and after its last move. -/
def LastRead (file : ByteArray) : List ReadStep → Prop :=
  Last fun step => step.reads ≠ [] ∧ step.file = some file

/-- The stream was moved to the position, and did not read from the store since. -/
def MovedTo (position : Nat) : List ReadStep → Prop :=
  Last fun step => step.Moves ∧ step.landed = position

/-- What a step owes to the steps before it, on a stream with a buffer of the given size. -/
structure Fresh (fd : Fd) (size : Nat) (earlier : List ReadStep) (step : ReadStep) : Prop where
  /-- What is given is what the file held, where the stream stands, when the stream last read from
  the store. -/
  gives : ∃ piece, step.call.Gives step.answer piece ∧
    (¬ step.call.IsSeek → step.landed = step.position + piece.size) ∧
    (piece.size ≠ 0 → ∃ file, LastRead file (earlier ++ [step]) ∧ LiesAt piece file step.position)
  /-- Nothing but a read reads from the store, and it does so once. -/
  reads : step.reads = [] ∨ ¬ step.call.IsSeek ∧
    ∃ answer, step.exchanges = [.read fd size step.position answer]
  /-- After a move the stream is read from the store anew. -/
  refetches : ∀ position, MovedTo position earlier → step.position = position ∧
    (step.call.Asks → ∃ answer, step.exchanges = [.read fd size position answer])

end ReadStep

/-- What happens to a stream and its store: a call on the stream, or whatever others make of the
store. -/
inductive ReadEvent (σ : Type) where
  | call (call : ReadCall)
  | others (change : σ → σ)

namespace ReadEvent

variable {σ : Type} [StoreClient σ]

def onEach (held : σ → Option ByteArray) (r : Reader) (s : σ) :
    List (ReadEvent σ) → List ReadStep × Reader × σ
  | [] => ([], r, s)
  | .others change :: events => onEach held r (change s) events
  | .call asked :: events =>
    let (answer, r', t) := asked.on r (Traced.mk s [])
    let step := ⟨asked, answer, r.fileOffset, r'.fileOffset, t.exchanges, held s⟩
    let (steps, r', s') := onEach held r' t.store events
    (step :: steps, r', s')

theorem onEach_append (held : σ → Option ByteArray) (r : Reader) (s : σ)
    (before later : List (ReadEvent σ)) : onEach held r s (before ++ later) =
      ((onEach held r s before).1 ++
          (onEach held (onEach held r s before).2.1 (onEach held r s before).2.2 later).1,
        (onEach held (onEach held r s before).2.1 (onEach held r s before).2.2 later).2) := by
  induction before generalizing r s with
  | nil => rfl
  | cons event before ih =>
    cases event with
    | others change => exact ih r (change s)
    | call asked =>
      simp only [List.cons_append, onEach]
      rw [ih]

end ReadEvent

namespace ReadStep

variable {such : ReadStep → Prop} {steps : List ReadStep} {step : ReadStep}

private theorem last_of_such (h : such step) : Last such (steps ++ [step]) :=
  ⟨steps, step, [], rfl, h, fun _ hother => absurd hother List.not_mem_nil⟩

theorem Last.concat (h : Last such steps) (hreads : step.reads = []) (hmoves : ¬ step.Moves) :
    Last such (steps ++ [step]) := by
  obtain ⟨earlier, last, later, rfl, hlast, hlater⟩ := h
  refine ⟨earlier, last, later ++ [step], by simp, hlast, fun other hother => ?_⟩
  rcases List.mem_append.1 hother with hother | hother
  · exact hlater other hother
  · rw [List.mem_singleton.1 hother]
    exact ⟨hreads, hmoves⟩

theorem Last.of_concat (h : Last such (steps ++ [step])) :
    such step ∨ step.reads = [] ∧ ¬ step.Moves ∧ Last such steps := by
  obtain ⟨earlier, last, later, hsteps, hlast, hlater⟩ := h
  rcases concat_split hsteps with ⟨rfl, rfl, rfl⟩ | ⟨between, rfl, rfl⟩
  · exact .inl hlast
  · obtain ⟨hreads, hmoves⟩ := hlater step (by simp)
    exact .inr ⟨hreads, hmoves, earlier, last, between, rfl, hlast,
      fun other hother => hlater other (by simp [hother])⟩

end ReadStep

namespace Reader

structure Reading (handle : Handle) (size : Nat) (r : Reader) : Prop where
  path : r.path = handle.path
  handle : r.handle = some handle
  isClosed : r.isClosed = false
  buffer : ∃ buffer, r.buffer = some buffer ∧ buffer.bytes.size = size
  windowEnd : r.windowEnd ≤ size

def HasWindow (r : Reader) : Prop := r.windowStart < r.windowEnd

variable {handle : Handle} {size : Nat} {r : Reader}

private theorem Reading.checkOpen (h : r.Reading handle size) : r.checkOpen = .ok () := by
  rw [Reader.checkOpen, h.isClosed]
  rfl

private theorem Reading.advance (h : r.Reading handle size) (count : Nat) :
    (r.advance count).Reading handle size :=
  ⟨h.path, h.handle, h.isClosed, h.buffer, h.windowEnd⟩

private theorem Reading.size_peek (h : r.Reading handle size) (limit : Nat) :
    (r.peek limit).size = min limit (r.windowEnd - r.windowStart) := by
  obtain ⟨buffer, hbuffer, rfl⟩ := h.buffer
  have hend := h.windowEnd
  simp only [Reader.peek, hbuffer, ByteArray.size_extract]
  omega

inductive Filled (handle : Handle) (size : Nat) (held : Option ByteArray) (r : Reader) :
    Except VolumeError Bool → Reader → List Exchange → Prop where
  | ahead (hwindow : r.HasWindow) : Filled handle size held r (.ok true) r []
  | fetched {r' answer file} (hempty : ¬ r.HasWindow) (hfile : held = some file)
      (h : r'.Ahead handle file) (hwindow : r'.HasWindow) (hoffset : r'.fileOffset = r.fileOffset) :
      Filled handle size held r (.ok true) r' [.read handle.fd size r.fileOffset answer]
  | nothing {result r' answer} (hempty : ¬ r.HasWindow) (hresult : result ≠ .ok true)
      (hnone : ¬ r'.HasWindow) (hoffset : r'.fileOffset = r.fileOffset) :
      Filled handle size held r result r' [.read handle.fd size r.fileOffset answer]

variable {σ : Type} [StoreClient σ] {held : σ → Option ByteArray} {holds : σ → Prop} {s : σ}

private theorem Reading.fill (h : r.Reading handle size) (hstore : ReadsTruly handle.fd held holds)
    (hs : holds s) : ∃ result r' t, r.fill (Traced.mk s []) = (result, r', t) ∧
      r'.Reading handle size ∧ holds t.store ∧
      r.Filled handle size (held s) result r' t.exchanges := by
  rw [Reader.fill, h.checkOpen]
  by_cases hwindow : r.HasWindow
  · exact ⟨.ok true, r, Traced.mk s [], if_pos hwindow, h, hs, .ahead hwindow⟩
  · obtain ⟨buffer, hbuffer, rfl⟩ := h.buffer
    have hkept := StoreClient.size_read s handle.fd buffer.bytes r.fileOffset
    have hholds := hstore.read hs buffer.bytes r.fileOffset
    have hread : StoreClient.read (Traced.mk s []) handle.fd buffer.bytes r.fileOffset =
        (Traced.mk s []).read handle.fd buffer.bytes r.fileOffset := rfl
    simp only [h.handle, hbuffer, hread, Traced.read, List.nil_append]
    rw [if_neg (show ¬ r.windowStart < r.windowEnd from hwindow)]
    generalize hanswer : StoreClient.read s handle.fd buffer.bytes r.fileOffset = outcome
      at hkept hholds
    obtain ⟨answer, bytes, s'⟩ := outcome
    dsimp only at hkept hholds ⊢
    cases answer with
    | error code =>
      exact ⟨_, _, _, rfl, ⟨h.path, rfl, h.isClosed, ⟨_, rfl, hkept⟩, h.windowEnd⟩, hholds,
        .nothing hwindow (fun hok => by cases hok) hwindow rfl⟩
    | ok count =>
      obtain ⟨hcount, hfile⟩ := hstore.report hs hanswer
      dsimp only
      rw [if_neg (by omega)]
      refine ⟨_, _, _, rfl, ⟨h.path, rfl, h.isClosed, ⟨_, rfl, hkept⟩, hcount⟩, hholds, ?_⟩
      by_cases hzero : count = 0
      · subst hzero
        exact .nothing hwindow (fun hok => by cases hok) (Nat.lt_irrefl 0) rfl
      · obtain ⟨file, hheld, hsize, hbytes⟩ := hfile hzero
        rw [decide_eq_true (Nat.pos_of_ne_zero hzero)]
        refine .fetched hwindow hheld ⟨h.path, rfl, h.isClosed, ⟨_, rfl, ?_, ?_, hbytes⟩,
          Nat.zero_le _, fun _ => hsize⟩ (Nat.pos_of_ne_zero hzero) rfl
        · dsimp only
          omega
        · dsimp only
          omega

/-- What becomes of a stream that hands out a piece, if it is asked for one. -/
inductive Handed (handle : Handle) (size : Nat) (held : Option ByteArray) (r : Reader)
    (asks : Prop) : ByteArray → Reader → List Exchange → Prop where
  | ahead {piece r'} (hwindow : r.HasWindow) (hoffset : r'.fileOffset = r.fileOffset + piece.size)
      (h : ∀ file, r.Ahead handle file → r'.Ahead handle file ∧ LiesAt piece file r.fileOffset) :
      Handed handle size held r asks piece r' []
  | fetched {piece r' answer file} (hempty : ¬ r.HasWindow)
      (hoffset : r'.fileOffset = r.fileOffset + piece.size) (hfile : held = some file)
      (h : r'.Ahead handle file) (hpiece : LiesAt piece file r.fileOffset) :
      Handed handle size held r asks piece r' [.read handle.fd size r.fileOffset answer]
  | nothing {r' answer} (hempty : ¬ r.HasWindow) (hoffset : r'.fileOffset = r.fileOffset)
      (hnone : ¬ r'.HasWindow) :
      Handed handle size held r asks .empty r' [.read handle.fd size r.fileOffset answer]
  | idle (h : ¬ asks) : Handed handle size held r asks .empty r []

variable {asks : Prop} {r₁ : Reader} {file : ByteArray} {limit : Nat} {exchanges : List Exchange}

private theorem Ahead.take (h : r.Ahead handle file) (hlimit : limit ≠ 0) (hwindow : r.HasWindow) :
    (r.advance (r.peek limit).size).Ahead handle file ∧
      LiesAt (r.peek limit) file r.fileOffset := by
  obtain ⟨count, -, -, hfile, hpeek, hsize, hadvance⟩ := h.peek hlimit hwindow
  rw [hsize]
  exact ⟨hadvance, by rwa [hsize], by rwa [hsize]⟩

private theorem Filled.take {held : Option ByteArray}
    (h : r.Filled handle size held (.ok true) r₁ exchanges) (hlimit : limit ≠ 0) :
    r.Handed handle size held asks (r₁.peek limit) (r₁.advance (r₁.peek limit).size)
      exchanges := by
  cases h with
  | ahead hwindow => exact .ahead hwindow rfl fun file hfile => hfile.take hlimit hwindow
  | fetched hempty hfile hahead hwindow hoffset =>
    obtain ⟨hthen, hpiece⟩ := hahead.take hlimit hwindow
    rw [hoffset] at hpiece
    exact .fetched hempty (congrArg (· + _) hoffset) hfile hthen hpiece
  | nothing hempty hresult => exact absurd rfl hresult

private theorem Filled.nothing_of_ne {held : Option ByteArray} {result : Except VolumeError Bool}
    (h : r.Filled handle size held result r₁ exchanges) (hresult : result ≠ .ok true) :
    r.Handed handle size held asks .empty r₁ exchanges := by
  cases h with
  | ahead | fetched => exact absurd rfl hresult
  | nothing hempty _ hnone hoffset => exact .nothing hempty hoffset hnone

private theorem Filled.hasWindow {held : Option ByteArray}
    (h : r.Filled handle size held (.ok true) r₁ exchanges) : r₁.HasWindow := by
  cases h with
  | ahead hwindow => exact hwindow
  | fetched _ _ _ hwindow => exact hwindow
  | nothing _ hresult => exact absurd rfl hresult

private theorem Reading.read (h : r.Reading handle size) (hstore : ReadsTruly handle.fd held holds)
    (hs : holds s) (dest : ByteArray) : ∃ result dest' piece r' t,
      r.read (Traced.mk s []) dest = (result, dest', r', t) ∧ r'.Reading handle size ∧
      holds t.store ∧ GivesInto dest 0 dest.size result dest' piece ∧
      r.Handed handle size (held s) (dest.size ≠ 0) piece r' t.exchanges := by
  unfold Reader.read
  split
  · rename_i hdest
    have hgives : GivesInto dest 0 dest.size (.ok (some 0)) dest .empty := by
      have hoverlay := overlay_extract dest (Nat.le_of_eq (Nat.zero_add dest.size))
      rw [Nat.zero_add, hdest, ByteArray.extract_same] at hoverlay
      have hpiece : GivesInto dest 0 dest.size (.ok (some ByteArray.empty.size))
        (overlay dest 0 .empty) .empty := .piece (Nat.zero_le _)
      rwa [hoverlay] at hpiece
    rw [h.checkOpen]
    exact ⟨_, dest, .empty, r, _, rfl, h, hs, hgives, .idle (not_not.2 hdest)⟩
  · rename_i hdest
    obtain ⟨result, r₁, t, hfill, h₁, ht, hfilled⟩ := h.fill hstore hs
    rw [hfill]
    rcases result with e | _ | _
    · exact ⟨_, dest, .empty, r₁, t, rfl, h₁, ht, .failed e, hfilled.nothing_of_ne nofun⟩
    · exact ⟨_, dest, .empty, r₁, t, rfl, h₁, ht, .atEnd, hfilled.nothing_of_ne nofun⟩
    · refine ⟨_, _, r₁.peek dest.size, _, t, rfl, h₁.advance _, ht, .piece ?_, hfilled.take hdest⟩
      rw [h₁.size_peek]
      exact Nat.min_le_left _ _

private theorem Reading.readByte (h : r.Reading handle size)
    (hstore : ReadsTruly handle.fd held holds) (hs : holds s) :
    ∃ result piece r' t, r.readByte (Traced.mk s []) = (result, r', t) ∧
      r'.Reading handle size ∧ holds t.store ∧ ReadCall.byte.Gives (.byte result) piece ∧
      r.Handed handle size (held s) True piece r' t.exchanges := by
  unfold Reader.readByte
  obtain ⟨result, r₁, t, hfill, h₁, ht, hfilled⟩ := h.fill hstore hs
  rw [hfill]
  rcases result with e | _ | _
  · exact ⟨_, .empty, r₁, t, rfl, h₁, ht, .byteFailed e, hfilled.nothing_of_ne nofun⟩
  · exact ⟨_, .empty, r₁, t, rfl, h₁, ht, .byteAtEnd, hfilled.nothing_of_ne nofun⟩
  · have hwindow : r₁.windowStart < r₁.windowEnd := hfilled.hasWindow
    have hsize := h₁.size_peek 1
    rw [Nat.min_eq_left (by omega)] at hsize
    have hhanded : r.Handed handle size (held s) True _ _ _ := hfilled.take Nat.one_ne_zero
    rw [hsize] at hhanded
    obtain ⟨b, hb⟩ : ∃ b, r₁.peek 1 = ⟨#[b]⟩ := by
      obtain ⟨b, hb⟩ := Array.size_eq_one_iff.1 hsize
      exact ⟨b, congrArg ByteArray.mk hb⟩
    have hget : (r₁.peek 1)[0]? = some b := by
      rw [hb]
      rfl
    rw [hb] at hhanded
    refine ⟨.ok (some b), _, _, t, ?_, h₁.advance 1, ht, .byte b, hhanded⟩
    dsimp only
    rw [hget]

private theorem Reading.readInto (h : r.Reading handle size)
    (hstore : ReadsTruly handle.fd held holds) (hs : holds s) (dest : ByteArray)
    (offset length : Nat) : ∃ result dest' piece r' t,
      r.readInto (Traced.mk s []) dest offset length = (result, dest', r', t) ∧
      r'.Reading handle size ∧ holds t.store ∧ GivesInto dest offset length result dest' piece ∧
      r.Handed handle size (held s) (length ≠ 0 ∧ offset + length ≤ dest.size) piece r'
        t.exchanges := by
  by_cases hrange : offset + length ≤ dest.size
  · obtain ⟨result, front, piece, r', t, hread, h', ht, hgives, hhanded⟩ :=
      h.read hstore hs (dest.extract offset (offset + length))
    have hsize : (dest.extract offset (offset + length)).size = length := by
      rw [ByteArray.size_extract]
      omega
    rw [hsize] at hgives hhanded
    refine ⟨result, overlay dest offset front, piece, r', t, ?_, h', ht, ?_, ?_⟩
    · simp only [Reader.readInto, if_neg (Nat.not_lt.2 hrange), hread]
    · cases hgives with
      | piece hpiece =>
        rw [overlay_overlay_extract dest piece hrange hpiece]
        exact .piece hpiece
      | atEnd =>
        rw [overlay_extract dest hrange]
        exact .atEnd
      | failed e =>
        rw [overlay_extract dest hrange]
        exact .failed e
    · simpa only [hrange, and_true] using hhanded
  · refine ⟨_, dest, .empty, r, _, r.readInto_of_outside _ (Nat.lt_of_not_le hrange), h, hs,
      .failed _, .idle fun hasks => hrange hasks.2⟩

open ReadStep

/-- An open stream, after what was seen of it. -/
structure Current (handle : Handle) (size : Nat) (steps : List ReadStep) (r : Reader) : Prop where
  reading : r.Reading handle size
  window : r.HasWindow → ∃ file, LastRead file steps ∧ r.Ahead handle file
  moved : ∀ position, MovedTo position steps → ¬ r.HasWindow ∧ r.fileOffset = position

variable {steps : List ReadStep} {r' : Reader} {asked : ReadCall} {answer : ReadAnswer}
  {piece : ByteArray} {behind : Option ByteArray}

private theorem Current.quiet (h : r.Current handle size steps) (hgives : asked.Gives answer .empty)
    (hasks : ¬ asked.Asks) {step : ReadStep}
    (hstep : step = ⟨asked, answer, r.fileOffset, r.fileOffset, exchanges, behind⟩)
    (hreads : step.reads = []) :
    r.Current handle size (steps ++ [step]) ∧ step.Fresh handle.fd size steps := by
  have hmoves : ¬ step.Moves := fun hmoves => hmoves.2 (by rw [hstep])
  refine ⟨⟨h.reading, fun hwindow => ?_, fun position hposition => ?_⟩, ?_⟩
  · obtain ⟨file, hlast, hahead⟩ := h.window hwindow
    exact ⟨file, hlast.concat hreads hmoves, hahead⟩
  · rcases hposition.of_concat with hsuch | ⟨-, -, hposition⟩
    · exact absurd hsuch.1 hmoves
    · exact h.moved position hposition
  · subst hstep
    exact ⟨⟨.empty, hgives, fun _ => rfl, fun hsome => absurd rfl hsome⟩, .inl hreads,
      fun position hposition => ⟨(h.moved position hposition).2, fun h => absurd h hasks⟩⟩

private theorem Current.fetched (h : r.Current handle size steps) (hcall : ¬ asked.IsSeek)
    (hreading : r'.Reading handle size) {step : ReadStep} {count : Except Errno Nat}
    (hstep : step = ⟨asked, answer, r.fileOffset, r'.fileOffset,
      [.read handle.fd size r.fileOffset count], behind⟩)
    (hgives : asked.Gives answer piece) (hoffset : r'.fileOffset = r.fileOffset + piece.size)
    (hpiece : piece.size ≠ 0 → ∃ file, behind = some file ∧ LiesAt piece file r.fileOffset)
    (hwindow : r'.HasWindow → ∃ file, behind = some file ∧ r'.Ahead handle file) :
    r'.Current handle size (steps ++ [step]) ∧ step.Fresh handle.fd size steps := by
  have hreads : step.reads ≠ [] := by
    rw [hstep]
    exact List.cons_ne_nil _ _
  have hmoves : ¬ step.Moves := fun hmoves => by
    rw [hstep] at hmoves
    exact hcall hmoves.1
  have hlast {file : ByteArray} (hfile : behind = some file) : LastRead file (steps ++ [step]) :=
    last_of_such ⟨hreads, by rw [hstep, hfile]⟩
  refine ⟨⟨hreading, fun hwindow' => ?_, fun position hposition => ?_⟩, ?_⟩
  · obtain ⟨file, hfile, hahead⟩ := hwindow hwindow'
    exact ⟨file, hlast hfile, hahead⟩
  · rcases hposition.of_concat with hsuch | ⟨hnone, -, -⟩
    · exact absurd hsuch.1 hmoves
    · exact absurd hnone hreads
  · subst hstep
    refine ⟨⟨piece, hgives, fun _ => hoffset, fun hsome => ?_⟩, .inr ⟨hcall, count, rfl⟩,
      fun position hposition => ?_⟩
    · obtain ⟨file, hfile, hlies⟩ := hpiece hsome
      exact ⟨file, hlast hfile, hlies⟩
    · obtain rfl := (h.moved position hposition).2
      exact ⟨rfl, fun _ => ⟨count, rfl⟩⟩

private theorem Current.handed (h : r.Current handle size steps) (hreading : r'.Reading handle size)
    {step : ReadStep}
    (hstep : step = ⟨asked, answer, r.fileOffset, r'.fileOffset, exchanges, behind⟩)
    (hgives : asked.Gives answer piece) (hcall : ¬ asked.IsSeek) (hasks : asked.Asks → asks)
    (hhanded : r.Handed handle size behind asks piece r' exchanges) :
    r'.Current handle size (steps ++ [step]) ∧ step.Fresh handle.fd size steps := by
  cases hhanded with
  | ahead hwindow hoffset hahead =>
    obtain ⟨file, hlast, hfile⟩ := h.window hwindow
    obtain ⟨hthen, hpiece⟩ := hahead file hfile
    have hreads : step.reads = [] := by
      rw [hstep]
      rfl
    have hmoves : ¬ step.Moves := fun hmoves => by
      rw [hstep] at hmoves
      exact hcall hmoves.1
    have hlast := hlast.concat hreads hmoves
    refine ⟨⟨hreading, fun _ => ⟨file, hlast, hthen⟩, fun position hposition => ?_⟩, ?_⟩
    · rcases hposition.of_concat with hsuch | ⟨-, -, hposition⟩
      · exact absurd hsuch.1 hmoves
      · exact absurd hwindow (h.moved position hposition).1
    · subst hstep
      exact ⟨⟨piece, hgives, fun _ => hoffset, fun _ => ⟨file, hlast, hpiece⟩⟩, .inl rfl,
        fun position hposition => absurd hwindow (h.moved position hposition).1⟩
  | fetched hempty hoffset hfile hahead hpiece =>
    exact h.fetched hcall hreading hstep hgives hoffset (fun _ => ⟨_, hfile, hpiece⟩)
      fun _ => ⟨_, hfile, hahead⟩
  | nothing hempty hoffset hnone =>
    exact h.fetched hcall hreading hstep hgives hoffset (fun hsome => absurd rfl hsome)
      fun hwindow => absurd hwindow hnone
  | idle hidle =>
    exact h.quiet hgives (fun h => hidle (hasks h)) hstep (by rw [hstep]; rfl)

private theorem Current.seek (h : r.Current handle size steps) (position : Nat) {step : ReadStep}
    (hstep : step = ⟨asked, answer, r.fileOffset, (r.seek position).2.fileOffset, exchanges,
      behind⟩) (hgives : asked.Gives answer .empty) (hcall : asked.IsSeek)
    (hreads : step.reads = []) :
    (r.seek position).2.Current handle size (steps ++ [step]) ∧
      step.Fresh handle.fd size steps := by
  have hasks : ¬ asked.Asks := by
    cases asked <;> simp_all [ReadCall.IsSeek, ReadCall.Asks]
  by_cases hsame : position = r.fileOffset
  · have hseek : (r.seek position).2 = r := by
      simp only [Reader.seek, h.reading.checkOpen, if_pos hsame]
    rw [hseek] at hstep ⊢
    exact h.quiet hgives hasks hstep hreads
  · have hseek : (r.seek position).2 =
        { r with fileOffset := position, windowStart := 0, windowEnd := 0 } := by
      simp only [Reader.seek, h.reading.checkOpen, if_neg hsame]
    rw [hseek] at hstep ⊢
    have hmoves : step.Moves := by
      rw [hstep]
      exact ⟨hcall, hsame⟩
    refine ⟨⟨⟨h.reading.path, h.reading.handle, h.reading.isClosed, h.reading.buffer,
      Nat.zero_le _⟩, fun hwindow => absurd hwindow (Nat.lt_irrefl 0),
      fun target htarget => ?_⟩, ?_⟩
    · rcases htarget.of_concat with ⟨-, hlanded⟩ | ⟨-, hquiet, -⟩
      · refine ⟨Nat.lt_irrefl 0, ?_⟩
        rw [← hlanded, hstep]
      · exact absurd hmoves hquiet
    · subst hstep
      exact ⟨⟨.empty, hgives, fun h => absurd hcall h, fun hsome => absurd rfl hsome⟩, .inl hreads,
        fun target htarget => ⟨(h.moved target htarget).2, fun h => absurd h hasks⟩⟩

private theorem Reading.origin (h : r.Reading handle size)
    (hstore : ReadsTruly handle.fd held holds) (hs : holds s) (whence : SeekOrigin) :
    ∃ base t, r.origin (Traced.mk s []) whence = (base, t) ∧ holds t.store ∧
      (t.exchanges = [] ∨ ∃ path answer, t.exchanges = [.getAttr path answer]) := by
  cases whence with
  | start => exact ⟨_, _, rfl, hs, .inl rfl⟩
  | current => exact ⟨_, _, rfl, hs, .inl rfl⟩
  | finish =>
    have hattr : StoreClient.getAttr (Traced.mk s []) r.path =
        (Traced.mk s []).noted (.getAttr r.path) (StoreClient.getAttr s r.path) := rfl
    have hholds := hstore.getAttr hs r.path
    generalize StoreClient.getAttr s r.path = outcome at hattr hholds
    obtain ⟨answer, s'⟩ := outcome
    simp only [Reader.origin, h.handle, hattr, Traced.noted]
    cases answer with
    | ok stat => exact ⟨_, _, rfl, hholds, .inr ⟨_, _, rfl⟩⟩
    | error code => exact ⟨_, _, rfl, hholds, .inr ⟨_, _, rfl⟩⟩

/-- A call keeps a stream current, and gives nothing that is not fresh. -/
theorem Current.call (h : r.Current handle size steps) (hstore : ReadsTruly handle.fd held holds)
    (hs : holds s) (asked : ReadCall) : ∃ answer r' t,
      asked.on r (Traced.mk s []) = (answer, r', t) ∧ holds t.store ∧
      r'.Current handle size
        (steps ++ [⟨asked, answer, r.fileOffset, r'.fileOffset, t.exchanges, held s⟩]) ∧
      Fresh handle.fd size steps
        ⟨asked, answer, r.fileOffset, r'.fileOffset, t.exchanges, held s⟩ := by
  cases asked with
  | byte =>
    obtain ⟨result, piece, r', t, hread, hr', ht, hgives, hhanded⟩ := h.reading.readByte hstore hs
    refine ⟨.byte result, r', t, ?_, ht,
      h.handed hr' rfl hgives not_false (fun _ => trivial) hhanded⟩
    simp only [ReadCall.on, hread]
  | bytes dest =>
    obtain ⟨result, dest', piece, r', t, hread, hr', ht, hgives, hhanded⟩ :=
      h.reading.read hstore hs dest
    refine ⟨.bytes result dest', r', t, ?_, ht,
      h.handed hr' rfl (.bytes hgives) not_false id hhanded⟩
    simp only [ReadCall.on, hread]
  | streamBytes dest =>
    obtain ⟨result, dest', piece, r', t, hread, hr', ht, hgives, hhanded⟩ :=
      h.reading.read hstore hs dest
    refine ⟨_, r', t, ?_, ht, h.handed hr' rfl (.streamBytes hgives) not_false id hhanded⟩
    simp only [ReadCall.on, Reader.streamRead, hread]
  | range dest offset length =>
    obtain ⟨result, dest', piece, r', t, hread, hr', ht, hgives, hhanded⟩ :=
      h.reading.readInto hstore hs dest offset length
    refine ⟨.bytes result dest', r', t, ?_, ht,
      h.handed hr' rfl (.range hgives) not_false id hhanded⟩
    simp only [ReadCall.on, hread]
  | seek position =>
    exact ⟨_, _, _, rfl, hs, h.seek position rfl .moved trivial rfl⟩
  | streamSeek whence distance =>
    obtain ⟨base, t, horigin, ht, hexchanges⟩ := h.reading.origin hstore hs whence
    have hreads {answer landed} : (ReadStep.mk (.streamSeek whence distance) answer r.fileOffset
        landed t.exchanges (held s)).reads = [] := by
      rcases hexchanges with hnone | ⟨path, answer, hone⟩
      · rw [ReadStep.reads, hnone, List.filter_nil]
      · rw [ReadStep.reads, hone]
        rfl
    simp only [ReadCall.on, Reader.streamSeek, horigin]
    cases base with
    | error e => exact ⟨_, r, t, rfl, ht, h.quiet .streamMoved not_false rfl hreads⟩
    | ok base =>
      dsimp only
      split
      · exact ⟨_, r, t, rfl, ht, h.quiet .streamMoved not_false rfl hreads⟩
      · exact ⟨_, _, t, rfl, ht, h.seek _ rfl .streamMoved trivial hreads⟩

private theorem current_new (handle : Handle) (buffer : Buffer) (offset : Nat) :
    ((Reader.new handle buffer).seek offset).2.Current handle buffer.bytes.size [] := by
  have hnone {such : ReadStep → Prop} : ¬ Last such [] := by
    rintro ⟨earlier, step, later, hsteps, -⟩
    simp at hsteps
  have hseek : ((Reader.new handle buffer).seek offset).2 =
      { Reader.new handle buffer with fileOffset := offset } := by
    by_cases hzero : offset = 0
    · subst hzero
      rfl
    · exact congrArg Prod.snd (if_neg hzero)
  rw [hseek]
  exact ⟨⟨rfl, rfl, rfl, ⟨buffer, rfl, rfl⟩, Nat.zero_le _⟩,
    fun hwindow => absurd hwindow (Nat.lt_irrefl 0), fun position h => absurd h hnone⟩

private theorem Current.onEach_seek (h : r.Current handle size steps) (s : σ)
    (events : List (ReadEvent σ)) :
    ReadEvent.onEach held r s (.call (.seek r.fileOffset) :: events) =
      (⟨.seek r.fileOffset, .moved (.ok ()), r.fileOffset, r.fileOffset, [], held s⟩ ::
        (ReadEvent.onEach held r s events).1, (ReadEvent.onEach held r s events).2) := by
  have hseek : r.seek r.fileOffset = (.ok (), r) := by
    simp only [Reader.seek, h.reading.checkOpen, if_true]
  simp only [ReadEvent.onEach, ReadCall.on, hseek]

/-- All that is seen of a stream is fresh, whatever others make of the store between its calls. -/
theorem Current.onEach (h : r.Current handle size steps)
    (hstore : ReadsTruly handle.fd held holds) (hs : holds s) {events : List (ReadEvent σ)}
    (hothers : ∀ change, .others change ∈ events → ∀ s, holds s → holds (change s)) :
    (ReadEvent.onEach held r s events).2.1.Current handle size
        (steps ++ (ReadEvent.onEach held r s events).1) ∧
      ∀ earlier step later, (ReadEvent.onEach held r s events).1 = earlier ++ step :: later →
        step.Fresh handle.fd size (steps ++ earlier) := by
  induction events generalizing steps r s with
  | nil =>
    refine ⟨?_, fun earlier step later hsteps => ?_⟩
    · rw [ReadEvent.onEach, List.append_nil]
      exact h
    · simp [ReadEvent.onEach] at hsteps
  | cons event events ih =>
    have hrest (change) (hchange : .others change ∈ events) :=
      hothers change (List.mem_cons_of_mem _ hchange)
    cases event with
    | others change => exact ih h (hothers change List.mem_cons_self s hs) hrest
    | call asked =>
      obtain ⟨answer, r', t, hcall, ht, h', hfresh⟩ := h.call hstore hs asked
      obtain ⟨hlast, hall⟩ := ih h' ht hrest
      simp only [ReadEvent.onEach, hcall]
      refine ⟨?_, fun earlier step later hsteps => ?_⟩
      · rwa [List.append_assoc, List.singleton_append] at hlast
      · cases earlier with
        | nil =>
          obtain ⟨rfl, -⟩ := List.cons.inj hsteps
          rwa [List.append_nil]
        | cons first earlier =>
          obtain ⟨rfl, htail⟩ := List.cons.inj hsteps
          have hstep := hall earlier step later htail
          rwa [List.append_assoc, List.singleton_append] at hstep

end Reader

section Events

variable {σ : Type} [StoreClient σ] {held : σ → Option ByteArray} {holds : σ → Prop}
  {s : σ}

/-- Whatever others make of a store between the calls on a stream, and whatever lay in its buffer
before, all that is seen of the stream is fresh. A seek to where the stream stands can be put in
anywhere, and nothing else is seen then that would not have been seen without it. -/
theorem fresh_of_events (handle : Handle) (hstore : ReadsTruly handle.fd held holds) (hs : holds s)
    (buffer : Buffer) (offset : Nat) {events : List (ReadEvent σ)}
    (hothers : ∀ change, .others change ∈ events → ∀ s, holds s → holds (change s)) :
    let seen := ReadEvent.onEach held ((Reader.new handle buffer).seek offset).2 s
    (∀ earlier step later, (seen events).1 = earlier ++ step :: later →
      step.Fresh handle.fd buffer.bytes.size earlier) ∧
      ∀ before later, events = before ++ later → ∃ steps r s' rest,
        seen before = (steps, r, s') ∧ (seen events).1 = steps ++ rest ∧
        (seen (before ++ .call (.seek r.fileOffset) :: later)).1 = steps ++
          ⟨.seek r.fileOffset, .moved (.ok ()), r.fileOffset, r.fileOffset, [], held s'⟩ ::
            rest := by
  intro seen
  have hnew := Reader.current_new handle buffer offset
  refine ⟨(hnew.onEach hstore hs hothers).2, ?_⟩
  rintro before later rfl
  obtain ⟨hbefore, -⟩ := hnew.onEach hstore hs fun change hchange =>
    hothers change (List.mem_append_left _ hchange)
  refine ⟨_, _, _, _, rfl, congrArg Prod.fst (ReadEvent.onEach_append held _ s before later), ?_⟩
  show (ReadEvent.onEach held _ s _).1 = _
  rw [ReadEvent.onEach_append, hbefore.onEach_seek]

open Memory in
private theorem Memory.Operation.readOverreport_on {s : Scripted Store}
    (hs : s.store.faults.readOverreport = none) {op : Operation} (h : op.LeavesFaults) :
    ({ s with store := op.on s.store } : Scripted Store).store.faults.readOverreport = none :=
  (op.faultsWane_on h s.store).readOverreport.trans hs

open Memory in
/-- A file is overwritten and then emptied while a stream with a buffer of four bytes reads it. The
third and the fourth byte come from the window, the next ones from the store. -/
theorem fresh_of_events_file_written_meanwhile :
    let store := (((Store.new {}).putFile "/f" "abcdef".toUTF8).openPath "/f" .readOnly 0).2
    let opened := (store.openPath "/f" .writeOnly 0).2
    let apply (op : Operation) : ReadEvent (Scripted Store) :=
      .others fun s => { s with store := op.on s.store }
    let events : List (ReadEvent (Scripted Store)) := [
      .call (.bytes "..".toUTF8),
      apply (.write ⟨4⟩ "XXXXXXXX".toUTF8 0),
      .call .byte,
      .call (.seek 3),
      .call .byte,
      .others fun s => { s with script := { readCap := some 1 } },
      .call (.seek 1),
      .call (.bytes "....".toUTF8),
      apply (.openPath "/f" (.writeOnly ||| .truncate) 0),
      .call .byte]
    let held (s : Scripted Store) := s.store.behind? ⟨3⟩
    let steps := (ReadEvent.onEach held
      ((Reader.new ⟨⟨3⟩, "/f"⟩ ⟨0, "zzzz".toUTF8⟩).seek 0).2 ⟨opened, {}⟩ events).1
    (∀ earlier step later, steps = earlier ++ step :: later → step.Fresh ⟨3⟩ 4 earlier) ∧
      steps.map (·.landed) = [2, 3, 3, 4, 1, 2, 2] ∧
      steps.map (·.reads.length) = [1, 0, 0, 0, 0, 1, 1] := by
  intro store opened apply events held steps
  have hopened : opened.faults.readOverreport = none := by decide +kernel
  have hothers : ∀ change, .others change ∈ events → ∀ s : Scripted Store,
      s.store.faults.readOverreport = none → (change s).store.faults.readOverreport = none := by
    intro change hchange s hs
    simp only [events, apply, List.mem_cons, ReadEvent.others.injEq, reduceCtorEq, false_or,
      or_false, List.not_mem_nil] at hchange
    rcases hchange with rfl | rfl | rfl
    · exact Operation.readOverreport_on hs trivial
    · exact hs
    · exact Operation.readOverreport_on hs trivial
  obtain ⟨hfresh, -⟩ := fresh_of_events ⟨⟨3⟩, "/f"⟩ (Store.readsTruly ⟨3⟩).scripted
    (s := ⟨opened, {}⟩) hopened ⟨0, "zzzz".toUTF8⟩ 0 hothers
  exact ⟨hfresh, by decide +kernel⟩

end Events
end VolumeFs
