import VolumeFs.Proofs.Store.Prefixes
import VolumeFs.Stream.Reader

/-!
# Read streams are cursors

A stream hands out the bytes of a file from a position on that it alone keeps, whatever parts of
the file the store gives it at a time. The window is how it does so, and cannot be told from
outside.
-/

namespace VolumeFs

open Bytes

inductive ReadCall where
  | byte
  | bytes (dest : ByteArray)
  | range (dest : ByteArray) (offset length : Nat)
  /-- A read as from a byte stream. -/
  | streamBytes (dest : ByteArray)
  | seek (position : Nat)
  | streamSeek (whence : SeekOrigin) (distance : Int)

/-- An answer, with the destination as the stream left it. -/
inductive ReadAnswer where
  | byte (result : Except VolumeError (Option UInt8))
  | bytes (result : Except VolumeError (Option Nat)) (dest : ByteArray)
  | streamBytes (result : Except StreamFailure Nat) (dest : ByteArray)
  | moved (result : Except VolumeError Unit)
  | streamMoved (result : Except StreamFailure Nat)

namespace ReadCall

variable {σ : Type} [StoreClient σ]

def on (r : Reader) (s : σ) : ReadCall → ReadAnswer × Reader × σ
  | byte =>
    let (result, r, s) := r.readByte s
    (.byte result, r, s)
  | bytes dest =>
    let (result, dest, r, s) := r.read s dest
    (.bytes result dest, r, s)
  | range dest offset length =>
    let (result, dest, r, s) := r.readInto s dest offset length
    (.bytes result dest, r, s)
  | streamBytes dest =>
    let (result, dest, r, s) := r.streamRead s dest
    (.streamBytes result dest, r, s)
  | seek position =>
    let (result, r) := r.seek position
    (.moved result, r, s)
  | streamSeek whence distance =>
    let (result, r, s) := r.streamSeek s whence distance
    (.streamMoved result, r, s)

def onEach (r : Reader) (s : σ) : List ReadCall → List ReadAnswer × Reader × σ
  | [] => ([], r, s)
  | call :: calls =>
    let (answer, r, s) := call.on r s
    let (answers, r, s) := onEach r s calls
    (answer :: answers, r, s)

end ReadCall

/-- How a range of a destination is read into at a position of the file. Only how many bytes there
are at a time is left open. -/
inductive CursorRead (file : ByteArray) (position : Nat) (dest : ByteArray) (offset length : Nat) :
    Option Nat → ByteArray → Nat → Prop where
  | nothing (h : length = 0) : CursorRead file position dest offset length (some 0) dest position
  | atEnd (h : length ≠ 0) (hend : file.size ≤ position) :
      CursorRead file position dest offset length none dest position
  | piece {count} (hcount : 0 < count) (hdest : count ≤ length)
      (hfile : position + count ≤ file.size) :
      CursorRead file position dest offset length (some count)
        (overlay dest offset (file.extract position (position + count))) (position + count)

/-- Where a distance is counted from. -/
def SeekOrigin.base (file : ByteArray) (position : Nat) : SeekOrigin → Nat
  | start => 0
  | current => position
  | finish => file.size

/-- A step of a cursor over a file: a call, its answer, and where the cursor stands then. -/
inductive CursorStep (file : ByteArray) (path : String) (position : Nat) :
    ReadCall → ReadAnswer → Nat → Prop where
  | byte (h : position < file.size) :
      CursorStep file path position .byte (.byte (.ok (some file[position]))) (position + 1)
  | byteAtEnd (h : file.size ≤ position) :
      CursorStep file path position .byte (.byte (.ok none)) position
  | bytes {dest result dest' position'}
      (h : CursorRead file position dest 0 dest.size result dest' position') :
      CursorStep file path position (.bytes dest) (.bytes (.ok result) dest') position'
  | streamBytes {dest result dest' position'}
      (h : CursorRead file position dest 0 dest.size result dest' position') :
      CursorStep file path position (.streamBytes dest) (.streamBytes (.ok (result.getD 0)) dest')
        position'
  | range {dest offset length result dest' position'} (hrange : offset + length ≤ dest.size)
      (h : CursorRead file position dest offset length result dest' position') :
      CursorStep file path position (.range dest offset length) (.bytes (.ok result) dest')
        position'
  | outside {dest offset length} (hrange : dest.size < offset + length) :
      CursorStep file path position (.range dest offset length)
        (.bytes (.error (.store path .einval)) dest) position
  | seek (target : Nat) : CursorStep file path position (.seek target) (.moved (.ok ())) target
  | streamSeek {whence : SeekOrigin} {distance : Int} {target : Nat}
      (htarget : whence.base file position + distance = target) (hsize : target < UInt64.size) :
      CursorStep file path position (.streamSeek whence distance) (.streamMoved (.ok target)) target
  | streamRefused {whence : SeekOrigin} {distance : Int} {failure : StreamFailure}
      (htarget : whence.base file position + distance < 0 ∨
        UInt64.size ≤ whence.base file position + distance)
      (hkind : failure.kind = .invalidInput) :
      CursorStep file path position (.streamSeek whence distance) (.streamMoved (.error failure))
        position

/-- Steps one after the other. -/
inductive CursorRun (file : ByteArray) (path : String) :
    Nat → List ReadCall → List ReadAnswer → Nat → Prop where
  | start (position : Nat) : CursorRun file path position [] [] position
  | step {position call answer position' calls answers position''}
      (hfirst : CursorStep file path position call answer position')
      (hrest : CursorRun file path position' calls answers position'') :
      CursorRun file path position (call :: calls) (answer :: answers) position''

namespace Reader

/-- The window of an open stream holds what comes next in the file. -/
structure Ahead (handle : Handle) (file : ByteArray) (r : Reader) : Prop where
  path : r.path = handle.path
  handle : r.handle = some handle
  isClosed : r.isClosed = false
  buffer : ∃ buffer, r.buffer = some buffer ∧ buffer.bytes.size ≠ 0 ∧
    r.windowEnd ≤ buffer.bytes.size ∧ buffer.bytes.extract r.windowStart r.windowEnd =
      file.extract r.fileOffset (r.fileOffset + (r.windowEnd - r.windowStart))
  windowStart : r.windowStart ≤ r.windowEnd
  windowEnd : r.windowStart < r.windowEnd →
    r.fileOffset + (r.windowEnd - r.windowStart) ≤ file.size

variable {handle : Handle} {file : ByteArray} {r : Reader}

private theorem Ahead.checkOpen (h : r.Ahead handle file) : r.checkOpen = .ok () := by
  rw [Reader.checkOpen, h.isClosed]
  rfl

private theorem ahead_new (handle : Handle) {buffer : Buffer} (hbuffer : buffer.bytes.size ≠ 0)
    (file : ByteArray) : (Reader.new handle buffer).Ahead handle file := by
  refine ⟨rfl, rfl, rfl, ⟨buffer, rfl, hbuffer, Nat.zero_le _, ?_⟩, Nat.le_refl _, nofun⟩
  simp [Reader.new]

private theorem Ahead.seek (h : r.Ahead handle file) (position : Nat) :
    ∃ r', r.seek position = (.ok (), r') ∧ r'.Ahead handle file ∧ r'.fileOffset = position := by
  simp only [Reader.seek, h.checkOpen]
  split
  · rename_i hsame
    exact ⟨r, rfl, h, hsame.symm⟩
  · obtain ⟨buffer, hbuffer, hsize, -, -⟩ := h.buffer
    refine ⟨_, rfl, ⟨h.path, h.handle, h.isClosed, ⟨buffer, hbuffer, hsize, Nat.zero_le _, ?_⟩,
      Nat.le_refl _, nofun⟩, rfl⟩
    simp

theorem Ahead.peek (h : r.Ahead handle file) {limit : Nat} (hlimit : limit ≠ 0)
    (hwindow : r.windowStart < r.windowEnd) :
    ∃ count, 0 < count ∧ count ≤ limit ∧ r.fileOffset + count ≤ file.size ∧
      r.peek limit = file.extract r.fileOffset (r.fileOffset + count) ∧
      (r.peek limit).size = count ∧ (r.advance count).Ahead handle file := by
  obtain ⟨buffer, hbuffer, hsize, hend, hbytes⟩ := h.buffer
  have hfile := h.windowEnd hwindow
  have hpart (i j : Nat) (hj : j ≤ r.windowEnd - r.windowStart) :
      buffer.bytes.extract (r.windowStart + i) (r.windowStart + j) =
        file.extract (r.fileOffset + i) (r.fileOffset + j) := by
    have hinner := congrArg (ByteArray.extract · i j) hbytes
    simp only [ByteArray.extract_extract] at hinner
    rwa [Nat.min_eq_left (by omega), Nat.min_eq_left (by omega)] at hinner
  refine ⟨min limit (r.windowEnd - r.windowStart), by omega, by omega, by omega, ?_, ?_, ?_⟩
  · have hpeek := hpart 0 (min limit (r.windowEnd - r.windowStart)) (by omega)
    rw [Nat.add_zero, Nat.add_zero] at hpeek
    simp only [Reader.peek, hbuffer]
    rw [← hpeek]
    congr 1
    omega
  · simp only [Reader.peek, hbuffer, ByteArray.size_extract]
    omega
  · refine ⟨h.path, h.handle, h.isClosed, ⟨buffer, hbuffer, hsize, hend, ?_⟩, ?_, ?_⟩
    · have hrest := hpart (min limit (r.windowEnd - r.windowStart)) (r.windowEnd - r.windowStart)
        (Nat.le_refl _)
      simp only [Reader.advance]
      rw [Nat.add_sub_cancel' h.windowStart] at hrest
      rw [hrest]
      congr 1
      omega
    · simp only [Reader.advance]
      omega
    · simp only [Reader.advance]
      omega

variable {σ : Type} [StoreClient σ] {holds : σ → Prop} {s : σ}

private theorem Ahead.fill (h : r.Ahead handle file) (hstore : GivesPrefixes handle file holds)
    (hs : holds s) : ∃ r' s', r.fill s = (.ok (decide (r.fileOffset < file.size)), r', s') ∧
      r'.Ahead handle file ∧ holds s' ∧ r'.fileOffset = r.fileOffset ∧
      (r.fileOffset < file.size → r'.windowStart < r'.windowEnd) := by
  rw [Reader.fill, h.checkOpen]
  by_cases hwindow : r.windowStart < r.windowEnd
  · have hfile := h.windowEnd hwindow
    refine ⟨r, s, ?_, h, hs, rfl, fun _ => hwindow⟩
    simp only [hwindow, if_true]
    rw [decide_eq_true (by omega)]
  · obtain ⟨buffer, hbuffer, hsize, -, -⟩ := h.buffer
    obtain ⟨count, bytes, s', hread, hs', hcount, hfile, hzero, hbytes⟩ :=
      hstore.read hs buffer.bytes r.fileOffset hsize
    have hkept := StoreClient.size_read s handle.fd buffer.bytes r.fileOffset
    rw [hread] at hkept
    simp only at hkept
    have hmore : decide (0 < count) = decide (r.fileOffset < file.size) :=
      decide_eq_decide.2 (by omega)
    refine ⟨{ r with
      buffer := some { buffer with bytes }
      windowStart := 0
      windowEnd := count }, s', ?_, ⟨h.path, h.handle, h.isClosed,
        ⟨{ buffer with bytes }, rfl, ?_, ?_, hbytes⟩, Nat.zero_le _, ?_⟩, hs', rfl, ?_⟩
    · simp only [hwindow, if_false, h.handle, hbuffer, hread]
      rw [if_neg (by omega), hmore]
    · simp only
      omega
    · simp only
      omega
    · simp only
      omega
    · simp only
      omega

private theorem Ahead.read (h : r.Ahead handle file) (hstore : GivesPrefixes handle file holds)
    (hs : holds s) (dest : ByteArray) : ∃ result dest' r' s',
      r.read s dest = (.ok result, dest', r', s') ∧ r'.Ahead handle file ∧ holds s' ∧
      CursorRead file r.fileOffset dest 0 dest.size result dest' r'.fileOffset := by
  by_cases hdest : dest.size = 0
  · refine ⟨some 0, dest, r, s, ?_, h, hs, .nothing hdest⟩
    rw [Reader.read, if_pos hdest, h.checkOpen]
    rfl
  · obtain ⟨r', s', hfill, h', hs', hoffset, hwindow⟩ := h.fill hstore hs
    by_cases hmore : r.fileOffset < file.size
    · obtain ⟨count, hcount, hlimit, hfile, hpeek, hsize, hadvance⟩ :=
        h'.peek hdest (hwindow hmore)
      rw [hpeek, hoffset] at hsize
      refine ⟨some count, overlay dest 0 (file.extract r.fileOffset (r.fileOffset + count)),
        r'.advance count, s', ?_, hadvance, hs', ?_⟩
      · simp only [Reader.read, if_neg hdest, hfill, decide_eq_true hmore, hpeek, hoffset, hsize]
      · rw [hoffset] at hfile
        have hposition : (r'.advance count).fileOffset = r.fileOffset + count := by
          rw [Reader.advance, hoffset]
        rw [hposition]
        exact .piece hcount hlimit hfile
    · refine ⟨none, dest, r', s', ?_, h', hs', ?_⟩
      · simp only [Reader.read, if_neg hdest, hfill, decide_eq_false hmore]
      · rw [hoffset]
        exact .atEnd hdest (Nat.le_of_not_lt hmore)

private theorem Ahead.readByte (h : r.Ahead handle file) (hstore : GivesPrefixes handle file holds)
    (hs : holds s) : ∃ result r' s', r.readByte s = (.ok result, r', s') ∧
      r'.Ahead handle file ∧ holds s' ∧
      CursorStep file handle.path r.fileOffset .byte (.byte (.ok result)) r'.fileOffset := by
  obtain ⟨r', s', hfill, h', hs', hoffset, hwindow⟩ := h.fill hstore hs
  by_cases hmore : r.fileOffset < file.size
  · obtain ⟨count, hcount, hlimit, -, hpeek, -, hadvance⟩ := h'.peek Nat.one_ne_zero (hwindow hmore)
    obtain rfl : count = 1 := by omega
    have hbyte : (file.extract r.fileOffset (r.fileOffset + 1))[0]? = some file[r.fileOffset] := by
      rw [getElem?_pos _ 0 (by simp; omega), ByteArray.getElem_extract]
      simp
    refine ⟨some file[r.fileOffset], r'.advance 1, s', ?_, hadvance, hs', ?_⟩
    · simp only [Reader.readByte, hfill, decide_eq_true hmore, hpeek, hoffset, hbyte]
    · have hposition : (r'.advance 1).fileOffset = r.fileOffset + 1 := by
        rw [Reader.advance, hoffset]
      rw [hposition]
      exact .byte hmore
  · refine ⟨none, r', s', ?_, h', hs', ?_⟩
    · simp only [Reader.readByte, hfill, decide_eq_false hmore]
    · rw [hoffset]
      exact .byteAtEnd (Nat.le_of_not_lt hmore)

private theorem Ahead.origin (h : r.Ahead handle file) (hstore : GivesPrefixes handle file holds)
    (hs : holds s) (whence : SeekOrigin) : ∃ s',
      r.origin s whence = (.ok (whence.base file r.fileOffset), s') ∧ holds s' := by
  cases whence with
  | start => exact ⟨s, rfl, hs⟩
  | current => exact ⟨s, rfl, hs⟩
  | finish =>
    obtain ⟨stat, s', hattr, hs', hsize⟩ := hstore.getAttr hs
    refine ⟨s', ?_, hs'⟩
    rw [← h.path] at hattr
    simp only [Reader.origin, h.handle, hattr, hsize, SeekOrigin.base]

private theorem Ahead.streamSeek (h : r.Ahead handle file)
    (hstore : GivesPrefixes handle file holds) (hs : holds s) (whence : SeekOrigin)
    (distance : Int) : ∃ result r' s',
      r.streamSeek s whence distance = (result, r', s') ∧ r'.Ahead handle file ∧ holds s' ∧
      CursorStep file handle.path r.fileOffset (.streamSeek whence distance) (.streamMoved result)
        r'.fileOffset := by
  obtain ⟨s', horigin, hs'⟩ := h.origin hstore hs whence
  by_cases hrefused : whence.base file r.fileOffset + distance < 0 ∨
      UInt64.size ≤ whence.base file r.fileOffset + distance
  · obtain ⟨failure, hseek, hkind⟩ : ∃ failure,
        r.streamSeek s whence distance = (.error failure, r, s') ∧
          failure.kind = .invalidInput := by
      simp only [Reader.streamSeek, horigin, if_pos hrefused]
      exact ⟨_, rfl, rfl⟩
    exact ⟨.error failure, r, s', hseek, h, hs', .streamRefused hrefused hkind⟩
  · have htarget : whence.base file r.fileOffset + distance =
        (whence.base file r.fileOffset + distance).toNat := by omega
    obtain ⟨r', hseek, h', hoffset⟩ :=
      h.seek (whence.base file r.fileOffset + distance).toNat
    refine ⟨.ok (whence.base file r.fileOffset + distance).toNat, r', s', ?_, h', hs', ?_⟩
    · simp only [Reader.streamSeek, horigin, if_neg hrefused, hseek]
      rfl
    · rw [hoffset]
      exact .streamSeek htarget (by omega)

end Reader

theorem Bytes.overlay_extract (dest : ByteArray) {offset length : Nat}
    (hrange : offset + length ≤ dest.size) :
    overlay dest offset (dest.extract offset (offset + length)) = dest := by
  have hend : offset + (dest.extract offset (offset + length)).size = offset + length := by
    simp only [ByteArray.size_extract]
    omega
  rw [overlay, hend, ByteArray.extract_append_extract, Nat.min_eq_left (by omega),
    Nat.max_eq_right (by omega), ByteArray.extract_append_extract, Nat.min_eq_left (by omega),
    Nat.max_eq_right (by omega), ByteArray.extract_zero_size]

theorem Bytes.overlay_overlay_extract (dest piece : ByteArray) {offset length : Nat}
    (hrange : offset + length ≤ dest.size) (hpiece : piece.size ≤ length) :
    overlay dest offset (overlay (dest.extract offset (offset + length)) 0 piece) =
      overlay dest offset piece := by
  have hlength : (dest.extract offset (offset + length)).size = length := by
    simp only [ByteArray.size_extract]
    omega
  have hsize : (overlay (dest.extract offset (offset + length)) 0 piece).size = length := by
    rw [size_overlay (by omega), hlength]
  have hrest : (dest.extract offset (offset + length)).extract (0 + piece.size) length =
      dest.extract (offset + piece.size) (offset + length) := by
    rw [ByteArray.extract_extract, Nat.zero_add, Nat.min_eq_left (Nat.le_refl _)]
  rw [overlay, hsize, overlay, hlength, hrest, ByteArray.extract_same, ByteArray.empty_append,
    overlay, ByteArray.append_assoc, ByteArray.append_assoc, ByteArray.extract_append_extract,
    ByteArray.append_assoc, Nat.min_eq_left (by omega), Nat.max_eq_right (by omega)]

private theorem CursorRead.within {file dest piece : ByteArray}
    {position offset length position' : Nat} {result : Option Nat}
    (hrange : offset + length ≤ dest.size)
    (h : CursorRead file position (dest.extract offset (offset + length)) 0 length result piece
      position') :
    CursorRead file position dest offset length result (overlay dest offset piece) position' := by
  cases h with
  | nothing hlength =>
    rw [overlay_extract dest hrange]
    exact .nothing hlength
  | atEnd hlength hend =>
    rw [overlay_extract dest hrange]
    exact .atEnd hlength hend
  | @piece count hcount hdest hfile =>
    rw [overlay_overlay_extract dest _ hrange (by simp; omega)]
    exact .piece hcount hdest hfile

section Runs

variable {σ : Type} [StoreClient σ] {handle : Handle} {file : ByteArray} {holds : σ → Prop}
  {r : Reader} {s : σ}

theorem Reader.readInto_of_outside (r : Reader) (s : σ) {dest : ByteArray} {offset length : Nat}
    (hrange : dest.size < offset + length) :
    r.readInto s dest offset length = (.error (.store r.path .einval), dest, r, s) :=
  if_pos hrange

private theorem Reader.Ahead.call (h : r.Ahead handle file)
    (hstore : GivesPrefixes handle file holds) (hs : holds s) (call : ReadCall) :
    ∃ answer r' s', call.on r s = (answer, r', s') ∧ r'.Ahead handle file ∧ holds s' ∧
      CursorStep file handle.path r.fileOffset call answer r'.fileOffset := by
  cases call with
  | byte =>
    obtain ⟨result, r', s', hread, h', hs', hstep⟩ := h.readByte hstore hs
    refine ⟨.byte (.ok result), r', s', ?_, h', hs', hstep⟩
    simp only [ReadCall.on, hread]
  | bytes dest =>
    obtain ⟨result, dest', r', s', hread, h', hs', hcursor⟩ := h.read hstore hs dest
    refine ⟨.bytes (.ok result) dest', r', s', ?_, h', hs', .bytes hcursor⟩
    simp only [ReadCall.on, hread]
  | streamBytes dest =>
    obtain ⟨result, dest', r', s', hread, h', hs', hcursor⟩ := h.read hstore hs dest
    refine ⟨.streamBytes (.ok (result.getD 0)) dest', r', s', ?_, h', hs', .streamBytes hcursor⟩
    simp only [ReadCall.on, Reader.streamRead, hread]
    rfl
  | range dest offset length =>
    by_cases hrange : offset + length ≤ dest.size
    · have hsize : (dest.extract offset (offset + length)).size = length := by
        simp only [ByteArray.size_extract]
        omega
      obtain ⟨result, piece, r', s', hread, h', hs', hcursor⟩ :=
        h.read hstore hs (dest.extract offset (offset + length))
      rw [hsize] at hcursor
      refine ⟨.bytes (.ok result) (overlay dest offset piece), r', s', ?_, h', hs',
        .range hrange (hcursor.within hrange)⟩
      simp only [ReadCall.on, Reader.readInto, if_neg (Nat.not_lt.2 hrange), hread]
    · refine ⟨.bytes (.error (.store handle.path .einval)) dest, r, s, ?_, h, hs,
        .outside (Nat.lt_of_not_le hrange)⟩
      rw [ReadCall.on, r.readInto_of_outside s (Nat.lt_of_not_le hrange), h.path]
  | seek position =>
    obtain ⟨r', hseek, h', hoffset⟩ := h.seek position
    refine ⟨.moved (.ok ()), r', s, ?_, h', hs, ?_⟩
    · simp only [ReadCall.on, hseek]
    · rw [hoffset]
      exact .seek position
  | streamSeek whence distance =>
    obtain ⟨result, r', s', hseek, h', hs', hstep⟩ := h.streamSeek hstore hs whence distance
    refine ⟨.streamMoved result, r', s', ?_, h', hs', hstep⟩
    simp only [ReadCall.on, hseek]

private theorem Reader.Ahead.calls (h : r.Ahead handle file)
    (hstore : GivesPrefixes handle file holds) (hs : holds s) (calls : List ReadCall) :
    ∃ answers r' s',
      ReadCall.onEach r s calls = (answers, r', s') ∧ r'.Ahead handle file ∧ holds s' ∧
      CursorRun file handle.path r.fileOffset calls answers r'.fileOffset := by
  induction calls generalizing r s with
  | nil => exact ⟨[], r, s, rfl, h, hs, .start _⟩
  | cons call calls ih =>
    obtain ⟨answer, r', s', hcall, h', hs', hfirst⟩ := h.call hstore hs call
    obtain ⟨answers, r'', s'', hcalls, h'', hs'', hrest⟩ := ih h' hs'
    refine ⟨answer :: answers, r'', s'', ?_, h'', hs'', .step hfirst hrest⟩
    simp only [ReadCall.onEach, hcall, hcalls]

/-- A stream on a file that does not change answers every run of calls as a cursor would, and
stands where the cursor stands. A range outside of its destination is refused, and leaves the
stream and the store as they are. -/
theorem read_stream_of_calls (hstore : GivesPrefixes handle file holds) (hs : holds s)
    (buffer : Buffer) (hbuffer : buffer.bytes.size ≠ 0) (offset : Nat) (calls : List ReadCall) :
    ∃ answers r s', ReadCall.onEach ((Reader.new handle buffer).seek offset).2 s calls =
        (answers, r, s') ∧
      CursorRun file handle.path offset calls answers r.fileOffset ∧
      ∀ dest offset length, dest.size < offset + length →
        (ReadCall.range dest offset length).on r s' =
          (.bytes (.error (.store handle.path .einval)) dest, r, s') := by
  obtain ⟨r₀, hseek, h₀, hoffset⟩ := (Reader.ahead_new handle hbuffer file).seek offset
  obtain ⟨answers, r, s', hcalls, h, -, hrun⟩ := h₀.calls hstore hs calls
  rw [hseek]
  rw [hoffset] at hrun
  refine ⟨answers, r, s', hcalls, hrun, fun dest offset length hrange => ?_⟩
  rw [ReadCall.on, r.readInto_of_outside s' hrange, h.path]

open Memory in
/-- A file of five bytes is read from its second one on, at most two at a time. -/
theorem read_stream_of_calls_two_bytes_at_a_time :
    let opened := ((Store.new {}).putFile "/f" "abcde".toUTF8).openPath "/f" .readOnly 0
    let calls := [.bytes "....".toUTF8, .byte, .streamSeek .finish (-2), .range "....".toUTF8 1 3]
    let ran := ReadCall.onEach ((Reader.new ⟨⟨3⟩, "/f"⟩ ⟨0, "12345678".toUTF8⟩).seek 1).2
      (Scripted.mk opened.2 { readCap := some 2 }) calls
    opened.1 = .ok ⟨3⟩ ∧
      CursorRun "abcde".toUTF8 "/f" 1 calls ran.1 ran.2.1.fileOffset ∧ ran.2.1.fileOffset = 5 := by
  intro opened calls ran
  have hopened : opened.1 = .ok ⟨3⟩ := by decide +kernel
  have hopen : opened = (.ok ⟨3⟩, opened.2) := by rw [← hopened]
  have hreadable : Store.ReadableAt ⟨⟨3⟩, "/f"⟩ "abcde".toUTF8 opened.2 :=
    Store.readableAt_of_openPath hopen rfl (by decide +kernel) (by decide +kernel)
  obtain ⟨answers, r, s', hran, hrun, -⟩ := read_stream_of_calls
    (Store.givesPrefixes ⟨⟨3⟩, "/f"⟩ "abcde".toUTF8).scripted
    (s := Scripted.mk opened.2 { readCap := some 2 }) ⟨hreadable, rfl, rfl, by simp⟩
    ⟨0, "12345678".toUTF8⟩ (by decide) 1 calls
  have hoffset : ran.2.1.fileOffset = 5 := by decide +kernel
  have hran' : ran = (answers, r, s') := hran
  rw [hran'] at hoffset ⊢
  exact ⟨hopened, hrun, hoffset⟩

end Runs
end VolumeFs
