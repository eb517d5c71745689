import Mathlib.Data.List.Basic
import Mathlib.Tactic.SplitIfs

/-! `AudioPlayer::fillBuffer` of the a14 player. The buffers of the source and those of the
audio sink are cut at places that have nothing to do with each other; the rest of a buffer
waits in `mInputBuffer` for the next call. -/
namespace Meet.AudioPlayer

/-- A buffer of the source, with the bytes of its range. -/
structure MediaBuffer where
  id : Nat
  range : List UInt8
  kKeyTime : Option Int
deriving DecidableEq, Repr

/-- What an audio sink reports once it is open. -/
structure AudioSink where
  latencyUs : Int
  frameSize : Nat
deriving DecidableEq, Repr

def ok : Int := 0

def infoFormatChanged : Int := -1012

def errorEndOfStream : Int := -1011

/-- A status that leaves the loop: a read that succeeds gives a buffer, and a new format is
looked at. -/
def IsError (status : Int) : Prop := status ≠ ok ∧ status ≠ infoFormatChanged

instance (status : Int) : Decidable (IsError status) := inferInstanceAs (Decidable (_ ∧ _))

/-- An answer of `mSource->read`. With `INFO_FORMAT_CHANGED` come the new sample rate and what
becomes of the sink, which may fail to open. -/
inductive ReadResult where
  | buffer (b : MediaBuffer)
  | formatChanged (sampleRate : Nat) (sink : Option AudioSink)
  | error (status : Int) (isError : IsError status)
deriving DecidableEq, Repr

/-- The members of `AudioPlayer`. `mSource` holds the answers that are still to come, and
`notified` the results of compatibility tests. The last two fields are proof data: the buffers
that have been released, and the time mapping after each read. -/
structure Player where
  mSource : Option (List ReadResult)
  mInputBuffer : Option MediaBuffer
  mSampleRate : Nat
  mLatencyUs : Int
  mFrameSize : Nat
  mNumFramesPlayed : Nat
  mPositionTimeMediaUs : Int
  mPositionTimeRealUs : Int
  mSeeking : Bool
  mSeekTimeUs : Int
  mStopping : Bool
  mReachedEOS : Bool
  mFinalStatus : Int
  mRunningCompatibilityTest : Bool
  sought : List Int
  notified : List Bool
  released : List Nat
  clock : List (Int × Int)
deriving DecidableEq, Repr

namespace Player

def getRealTimeUs (p : Player) : Int :=
  -p.mLatencyUs + (p.mNumFramesPlayed * 1000000 / p.mSampleRate : Nat)

/-- The real time and the media time that belong together, and whether both are known. -/
def getMediaTimeMapping (p : Player) : Bool × Int × Int :=
  (p.mPositionTimeRealUs ≠ -1 ∧ p.mPositionTimeMediaUs ≠ -1,
    p.mPositionTimeRealUs, p.mPositionTimeMediaUs)

/-- `mInputBuffer` is released if there is one. -/
def releaseInput (p : Player) : Player :=
  { p with
    mInputBuffer := none
    released := p.released ++ (p.mInputBuffer.map MediaBuffer.id).toList }

/-- The answer of the source, and the answers behind it. A source that has no answers left is
at its end. -/
def answer : List ReadResult → ReadResult × List ReadResult
  | [] => (.error errorEndOfStream (by decide), [])
  | first :: rest => (first, rest)

end Player

/-- The loop of `fillBuffer`. `data` are the first `size_done` bytes. -/
structure Fill where
  player : Player
  data : List UInt8
  remaining : Nat
deriving DecidableEq, Repr

/-- How a pass of the loop ends. A failed `CHECK` and a division by zero are crashes. -/
inductive Pass where
  | again (f : Fill)
  | leave (f : Fill)
  | return0 (p : Player)
  | crash
deriving DecidableEq, Repr

/-- How a call ends. `bytes` is what the call says it has filled. -/
inductive Filled where
  | returned (p : Player) (bytes : List UInt8)
  | crashed
deriving DecidableEq, Repr

namespace Fill

/-- The end of a pass: as much of the input buffer as there is room for. -/
def copyFrom (f : Fill) (b : MediaBuffer) : Pass :=
  if b.range.length = 0 then .again { f with player := f.player.releaseInput }
  else
    let copy := min f.remaining b.range.length
    .again
      { player := { f.player with mInputBuffer := some { b with range := b.range.drop copy } }
        data := f.data ++ b.range.take copy
        remaining := f.remaining - copy }

/-- The input buffer that has been read, with the times that belong together from now on. -/
def mapTime (f : Fill) (b : MediaBuffer) (timeUs : Int) : Fill :=
  let frames := f.player.mNumFramesPlayed + f.data.length / f.player.mFrameSize
  let realUs : Int := (frames * 1000000 / f.player.mSampleRate : Nat)
  { f with
    player := { f.player with
      mInputBuffer := some b
      mPositionTimeMediaUs := timeUs
      mPositionTimeRealUs := realUs
      clock := f.player.clock ++ [(realUs, timeUs)] } }

/-- What is read while a seek is pending is dropped. -/
def dropOld (f : Fill) (b : MediaBuffer) (timeUs : Int) : Fill :=
  let p := { f.player with mInputBuffer := some b, mPositionTimeMediaUs := timeUs }
  { f with player := { p.releaseInput with mSeeking := false } }

/-- A buffer that has been read. -/
def accept (f : Fill) (b : MediaBuffer) : Pass :=
  match b.kKeyTime with
  | none => .crash
  | some timeUs =>
      if f.player.mSeeking then .again (f.dropOld b timeUs)
      else if f.player.mFrameSize = 0 ∨ f.player.mSampleRate = 0 then .crash
      else (f.mapTime b timeUs).copyFrom b

/-- A sink that fails to open takes the source with it. -/
def reopen (f : Fill) (sampleRate : Nat) (sink : Option AudioSink) : Pass :=
  let p := { f.player with mSampleRate := sampleRate }
  match sink with
  | some sink =>
      .leave { f with
        player := { p with mLatencyUs := sink.latencyUs, mFrameSize := sink.frameSize } }
  | none => .return0 { p with mSource := none }

/-- The answers that come after the one that has been read. -/
def advance (f : Fill) (rest : List ReadResult) : Fill :=
  { f with player := { f.player with mSource := some rest } }

def read (f : Fill) (answers : List ReadResult) : Pass :=
  let f := f.advance (Player.answer answers).2
  match (Player.answer answers).1 with
  | .buffer b => f.accept b
  | .formatChanged sampleRate sink => f.reopen sampleRate sink
  | .error status _ =>
      .leave { f with player := { f.player with mReachedEOS := true, mFinalStatus := status } }

/-- A pending seek makes the call start over. -/
def restart (size : Nat) (f : Fill) : Fill :=
  if f.player.mSeeking then
    let p := f.player.releaseInput
    ⟨{ p with sought := p.sought ++ [p.mSeekTimeUs] }, [], size⟩
  else f

/-- A pass of the loop with the size that was asked for. -/
def pass (size : Nat) (f : Fill) : Pass :=
  if f.player.mStopping then .return0 f.player.releaseInput
  else
    let f := f.restart size
    match f.player.mInputBuffer, f.player.mSource with
    | some b, _ => f.copyFrom b
    | none, none => .crash
    | none, some answers => f.read answers

/-- What follows the loop. -/
def finish (f : Fill) : Filled :=
  let size : Nat := f.data.length
  let p : Player := { f.player with
    mNumFramesPlayed := f.player.mNumFramesPlayed + size / f.player.mFrameSize }
  if p.mFrameSize = 0 then .crashed
  else if p.mRunningCompatibilityTest ∧ 0 < size then
    .returned
      { p.releaseInput with
        mReachedEOS := true
        notified := p.notified ++ [decide (1024 < size)] } []
  else .returned p f.data

end Fill

/-- The loop; there is no result if it takes more passes than the fuel. -/
def fillLoop (size : Nat) : Nat → Fill → Option Filled
  | 0, _ => none
  | fuel + 1, f =>
      if f.remaining = 0 then some f.finish
      else
        match f.pass size with
        | .again f => fillLoop size fuel f
        | .leave f => some f.finish
        | .return0 p => some (.returned p [])
        | .crash => some .crashed

/-- The passes that are left at most. -/
def Fill.passes (size : Nat) (f : Fill) : Nat :=
  2 * (f.player.mSource.getD []).length + f.player.mInputBuffer.toList.length + f.remaining +
    if f.player.mSeeking then size + 1 else 0

def fillBuffer (p : Player) (size : Nat) : Option Filled :=
  if p.mReachedEOS then some (.returned p [])
  else
    let f : Fill := ⟨p, [], size⟩
    fillLoop size (f.passes size + 1) f

namespace Fill

variable {f f' : Fill} {b : MediaBuffer} (size : Nat)

theorem copyFrom_passes_lt (hAgain : f.copyFrom b = .again f')
    (hInput : f.player.mInputBuffer = some b) (hRoom : 0 < f.remaining) :
    f'.passes size < f.passes size := by
  rw [copyFrom] at hAgain
  split_ifs at hAgain with hEmpty
  · cases hAgain
    simp [passes, Player.releaseInput, hInput]
  · cases hAgain
    simp only [passes, hInput, Option.toList_some, List.length_singleton]
    omega

/-- A buffer that is read may stay as the input buffer, where it counts less. One that is
dropped ends the seek. -/
theorem accept_passes_lt (hAgain : f.accept b = .again f')
    (hInput : f.player.mInputBuffer = none) (hRoom : 0 < f.remaining) :
    f'.passes size + (if f.player.mSeeking then size else 0) < f.passes size + 2 := by
  rw [accept] at hAgain
  split at hAgain
  · cases hAgain
  · split_ifs at hAgain with hSeeking hZero
    · cases hAgain
      simp only [passes, dropOld, Player.releaseInput, hInput, hSeeking, Option.toList_none,
        List.length_nil, if_true, Bool.false_eq_true, if_false]
      omega
    · have hLess := copyFrom_passes_lt size hAgain rfl hRoom
      simp only [passes, mapTime, hInput, hSeeking, Option.toList_some, Option.toList_none,
        List.length_singleton, List.length_nil, Bool.false_eq_true, if_false] at hLess ⊢
      omega

theorem advance_passes {first : ReadResult} {rest : List ReadResult}
    (hSource : f.player.mSource = some (first :: rest)) :
    (f.advance rest).passes size + 2 = f.passes size := by
  cases hSeeking : f.player.mSeeking <;> simp [passes, advance, hSource, hSeeking] <;> omega

theorem read_passes_lt {answers : List ReadResult} (hAgain : f.read answers = .again f')
    (hInput : f.player.mInputBuffer = none) (hSource : f.player.mSource = some answers)
    (hRoom : 0 < f.remaining) :
    f'.passes size + (if f.player.mSeeking then size else 0) < f.passes size := by
  cases answers with
  | nil => simp [read, Player.answer] at hAgain
  | cons first rest =>
      cases first with
      | buffer b =>
          rw [← advance_passes size hSource]
          exact accept_passes_lt size hAgain hInput hRoom
      | formatChanged sampleRate sink =>
          cases sink with
          | none => simp [read, Player.answer, reopen] at hAgain
          | some sink => simp [read, Player.answer, reopen] at hAgain
      | error status isError => simp [read, Player.answer] at hAgain

/-- A call that starts over has at most the whole size to fill again. -/
theorem restart_passes_le (f : Fill) :
    (f.restart size).passes size ≤ f.passes size + (if f.player.mSeeking then size else 0) := by
  rw [restart]
  split_ifs with hSeeking
  · simp only [passes, Player.releaseInput, hSeeking, Option.toList_none, List.length_nil, if_true]
    omega
  · omega

theorem restart_mSeeking (f : Fill) : (f.restart size).player.mSeeking = f.player.mSeeking := by
  rw [restart]
  split_ifs <;> rfl

/-- Every pass that does not end the loop brings its end nearer, also when it starts over. -/
theorem pass_passes_lt (hAgain : f.pass size = .again f') (hRoom : 0 < f.remaining)
    (hSize : 0 < size) : f'.passes size < f.passes size := by
  rw [pass] at hAgain
  split_ifs at hAgain with hStopping
  have hRestart := restart_passes_le size f
  have hSeeking := restart_mSeeking size f
  have hRoom' : 0 < (f.restart size).remaining := by
    rw [restart]
    split_ifs
    · exact hSize
    · exact hRoom
  dsimp only at hAgain
  split at hAgain
  next b hInput =>
      have hIdle : f.player.mSeeking = false := by
        cases hPending : f.player.mSeeking with
        | false => rfl
        | true => simp [restart, hPending, Player.releaseInput] at hInput
      have hLess := copyFrom_passes_lt size hAgain hInput hRoom'
      simp only [hIdle, Bool.false_eq_true, if_false] at hRestart
      omega
  next => cases hAgain
  next answers hInput hSource =>
      have hLess := read_passes_lt size hAgain hInput hSource hRoom'
      rw [hSeeking] at hLess
      omega

/-- What a pass that does not end the loop leaves as it is. -/
structure Same (f f' : Fill) : Prop where
  frames : f'.player.mNumFramesPlayed = f.player.mNumFramesPlayed
  eos : f'.player.mReachedEOS = f.player.mReachedEOS
  room : f'.data.length + f'.remaining = f.data.length + f.remaining

theorem exists_copyFrom (f : Fill) (b : MediaBuffer) : ∃ f', f.copyFrom b = .again f' := by
  rw [copyFrom]
  split_ifs
  · exact ⟨_, rfl⟩
  · exact ⟨_, rfl⟩

theorem copyFrom_same (hAgain : f.copyFrom b = .again f') : f.Same f' := by
  rw [copyFrom] at hAgain
  split_ifs at hAgain with hEmpty
  · cases hAgain
    exact ⟨rfl, rfl, rfl⟩
  · cases hAgain
    refine ⟨rfl, rfl, ?_⟩
    simp only [List.length_append, List.length_take]
    omega

end Fill

/-- The loop ends whatever the source answers, with a seek pending or not. -/
theorem exists_fillLoop {size fuel : Nat} {f : Fill} (hSize : 0 < size ∨ f.remaining = 0)
    (hFuel : f.passes size < fuel) : ∃ filled, fillLoop size fuel f = some filled := by
  induction fuel generalizing f with
  | zero => omega
  | succ fuel ih =>
      rw [fillLoop]
      split_ifs with hRoom
      · exact ⟨_, rfl⟩
      · have hSize' : 0 < size := by omega
        cases hPass : f.pass size with
        | again f' =>
            have hLess := f.pass_passes_lt size hPass (by omega) hSize'
            exact ih (.inl hSize') (by omega)
        | leave f' => exact ⟨_, rfl⟩
        | return0 p => exact ⟨_, rfl⟩
        | crash => exact ⟨_, rfl⟩

theorem exists_fillBuffer (p : Player) (size : Nat) :
    ∃ filled, fillBuffer p size = some filled := by
  rw [fillBuffer]
  split_ifs
  · exact ⟨_, rfl⟩
  · exact exists_fillLoop (by dsimp only; omega) (Nat.lt_succ_self _)

/-- The calls of the sink with the sizes that it asks for, and what each of them filled. -/
def fillAll : Player → List Nat → Option (Player × List (List UInt8))
  | p, [] => some (p, [])
  | p, size :: sizes =>
      match fillBuffer p size with
      | some (.returned p bytes) =>
          (fillAll p sizes).map fun rest => (rest.1, bytes :: rest.2)
      | _ => none

/-- The bytes of the input buffer that are still to be copied. -/
def Player.heldBytes (p : Player) : List UInt8 := (p.mInputBuffer.map MediaBuffer.range).getD []

def Player.heldIds (p : Player) : List Nat := (p.mInputBuffer.map MediaBuffer.id).toList

/-- A decoded stream that ends with an error, and the sink that is opened for it. -/
structure Stream where
  sampleRate : Nat
  sink : AudioSink
  buffers : List MediaBuffer
  status : Int
  isError : IsError status
  sampleRate_pos : 0 < sampleRate
  frameSize_pos : 0 < sink.frameSize
  timed : ∀ b ∈ buffers, b.kKeyTime.isSome

namespace Stream

variable (s : Stream)

def bytes : List UInt8 := s.buffers.flatMap MediaBuffer.range

def answers (unread : List MediaBuffer) : List ReadResult :=
  unread.map .buffer ++ [.error s.status s.isError]

/-- The player that `start` leaves behind. -/
def start : Player where
  mSource := some (s.answers s.buffers)
  mInputBuffer := none
  mSampleRate := s.sampleRate
  mLatencyUs := s.sink.latencyUs
  mFrameSize := s.sink.frameSize
  mNumFramesPlayed := 0
  mPositionTimeMediaUs := -1
  mPositionTimeRealUs := -1
  mSeeking := false
  mSeekTimeUs := 0
  mStopping := false
  mReachedEOS := false
  mFinalStatus := 0
  mRunningCompatibilityTest := false
  sought := []
  notified := []
  released := []
  clock := []

/-- The real time at which a buffer starts if the frames of those before it are played first,
and the media time of the buffer. -/
def mapping (before : List MediaBuffer) (b : MediaBuffer) : Int × Int :=
  let frames := (before.flatMap MediaBuffer.range).length / s.sink.frameSize
  ((frames * 1000000 / s.sampleRate : Nat), b.kKeyTime.getD 0)

/-- The mappings of the buffers in order. -/
def mappings (before : List MediaBuffer) : List MediaBuffer → List (Int × Int)
  | [] => []
  | b :: rest => s.mapping before b :: mappings (before ++ [b]) rest

/-- The sizes and the buffers are cut between frames. -/
def Aligned (sizes : List Nat) : Prop :=
  (∀ size ∈ sizes, s.sink.frameSize ∣ size) ∧
    ∀ b ∈ s.buffers, s.sink.frameSize ∣ b.range.length

/-- What the calls with the given sizes have filled, and the player they leave behind. -/
structure Delivered (sizes : List Nat) (p : Player) (chunks : List (List UInt8)) : Prop where
  inOrder : chunks.flatten <+: s.bytes
  complete : p.mReachedEOS = true → chunks.flatten = s.bytes
  full : p.mReachedEOS = false → chunks.map List.length = sizes
  -- the buffers read so far were released in order, but for the one that is held
  owned : ∃ read unread, s.buffers = read ++ unread ∧
    p.released ++ p.heldIds = read.map MediaBuffer.id ∧
    (p.mReachedEOS = false → p.mSource = some (s.answers unread)) ∧
    (p.mReachedEOS = true → unread = [] ∧ p.heldIds = []) ∧
    (s.Aligned sizes → p.clock = s.mappings [] read)
  now : ∀ mapping, p.clock.getLast? = some mapping → p.getMediaTimeMapping.2 = mapping
  frames : s.Aligned sizes → p.mNumFramesPlayed * p.mFrameSize = chunks.flatten.length

theorem mappings_snoc (before read : List MediaBuffer) (b : MediaBuffer) :
    s.mappings before (read ++ [b]) =
      s.mappings before read ++ [s.mapping (before ++ read) b] := by
  induction read generalizing before with
  | nil => simp [mappings]
  | cons first rest ih => simp [mappings, ih]

/-- The player has handed out the bytes `given` of the buffers that it has read. -/
structure Tracks (aligned : Prop) (read unread : List MediaBuffer) (given : List UInt8)
    (p : Player) : Prop where
  split : s.buffers = read ++ unread
  idle : p.mStopping = false ∧ p.mSeeking = false ∧ p.mRunningCompatibilityTest = false
  opened : p.mFrameSize = s.sink.frameSize ∧ p.mSampleRate = s.sampleRate
  source : p.mReachedEOS = false → p.mSource = some (s.answers unread)
  ended : p.mReachedEOS = true → unread = [] ∧ p.mInputBuffer = none
  bytes : given ++ p.heldBytes = read.flatMap MediaBuffer.range
  owned : p.released ++ p.heldIds = read.map MediaBuffer.id
  clock : aligned → p.clock = s.mappings [] read
  now : ∀ mapping, p.clock.getLast? = some mapping → p.getMediaTimeMapping.2 = mapping

variable {s} {aligned : Prop} {read unread : List MediaBuffer} {given : List UInt8}
  {f f' : Fill} {b : MediaBuffer}

/-- Copying moves bytes from the input buffer to the data, and an empty input buffer goes. -/
theorem Tracks.copyFrom (h : s.Tracks aligned read unread (given ++ f.data) f.player)
    (hInput : f.player.mInputBuffer = some b) (hOpen : f.player.mReachedEOS = false)
    (hAgain : f.copyFrom b = .again f') :
    s.Tracks aligned read unread (given ++ f'.data) f'.player := by
  have hBytes := h.bytes
  have hOwned := h.owned
  simp only [Player.heldBytes, Player.heldIds, hInput, Option.map_some, Option.getD_some,
    Option.toList_some] at hBytes hOwned
  rw [Fill.copyFrom] at hAgain
  split_ifs at hAgain with hEmpty
  · cases hAgain
    have hNil : b.range = [] := List.eq_nil_of_length_eq_zero hEmpty
    exact { h with
      ended := fun hEOS => by simp [Player.releaseInput, hOpen] at hEOS
      bytes := by simpa [Player.releaseInput, Player.heldBytes, hNil] using hBytes
      owned := by simpa [Player.releaseInput, Player.heldIds, hInput] using hOwned }
  · cases hAgain
    exact { h with
      ended := fun hEOS => by simp [hOpen] at hEOS
      bytes := by simpa [Player.heldBytes] using hBytes
      owned := by simpa [Player.heldIds] using hOwned }

/-- The next buffer is read when the one before it has been used up, so its first byte is the
next to be handed out. -/
theorem Tracks.mapTime {timeUs : Int}
    (h : s.Tracks aligned read (b :: unread) (given ++ f.data) f.player)
    (hInput : f.player.mInputBuffer = none) (hOpen : f.player.mReachedEOS = false)
    (hTime : b.kKeyTime = some timeUs)
    (hCount : aligned → f.player.mNumFramesPlayed * s.sink.frameSize = given.length) :
    s.Tracks aligned (read ++ [b]) unread (given ++ f.data)
      ((f.advance (s.answers unread)).mapTime b timeUs).player := by
  have hBytes := h.bytes
  have hOwned := h.owned
  simp only [Player.heldBytes, Player.heldIds, hInput, Option.map_none, Option.getD_none,
    Option.toList_none, List.append_nil] at hBytes hOwned
  exact {
    split := by simp [h.split]
    idle := h.idle
    opened := h.opened
    source := fun _ => rfl
    ended := fun hEOS => by simp [Fill.mapTime, Fill.advance, hOpen] at hEOS
    bytes := by simp [Fill.mapTime, Player.heldBytes, ← hBytes]
    owned := by simp [Fill.mapTime, Fill.advance, Player.heldIds, hOwned]
    clock := fun hAligned => by
      have hFrames : f.player.mNumFramesPlayed + f.data.length / s.sink.frameSize =
          (read.flatMap MediaBuffer.range).length / s.sink.frameSize := by
        rw [← hBytes, List.length_append, ← hCount hAligned, Nat.add_comm (_ * _),
          Nat.add_mul_div_right _ _ s.frameSize_pos, Nat.add_comm]
      simp only [Fill.mapTime, Fill.advance, h.opened.1, h.opened.2, hFrames, h.clock hAligned,
        mappings_snoc, mapping, hTime, Option.getD_some, List.nil_append]
    now := fun mapping hLast => by
      simpa [Fill.mapTime, Player.getMediaTimeMapping] using hLast }

theorem exists_kKeyTime (hSplit : s.buffers = read ++ b :: unread) :
    ∃ timeUs, b.kKeyTime = some timeUs :=
  Option.isSome_iff_exists.mp (s.timed b (by simp [hSplit]))

/-- A pass goes on with the rest of the stream, or finds its end. -/
theorem Tracks.pass (size : Nat) (h : s.Tracks aligned read unread (given ++ f.data) f.player)
    (hOpen : f.player.mReachedEOS = false)
    (hCount : aligned → f.player.mNumFramesPlayed * s.sink.frameSize = given.length) :
    (∃ f' read' unread', f.pass size = .again f' ∧ f.Same f' ∧
      s.Tracks aligned read' unread' (given ++ f'.data) f'.player) ∨
    ∃ f', f.pass size = .leave f' ∧ f'.data = f.data ∧
      f'.player.mNumFramesPlayed = f.player.mNumFramesPlayed ∧ f'.player.mReachedEOS = true ∧
      s.Tracks aligned read unread (given ++ f.data) f'.player := by
  have hStopping : f.player.mStopping = false := h.idle.1
  have hSeeking : f.player.mSeeking = false := h.idle.2.1
  have hSource := h.source hOpen
  simp only [Fill.pass, Fill.restart, hStopping, hSeeking, Bool.false_eq_true, if_false]
  cases hInput : f.player.mInputBuffer with
  | some b =>
      obtain ⟨f', hAgain⟩ := f.exists_copyFrom b
      exact .inl ⟨f', read, unread, hAgain, f.copyFrom_same hAgain, h.copyFrom hInput hOpen hAgain⟩
  | none =>
      simp only [hSource]
      cases unread with
      | nil =>
          refine .inr ⟨_, rfl, rfl, rfl, rfl, ?_⟩
          exact { h with
            source := fun hEOS => by cases hEOS
            ended := fun _ => ⟨rfl, hInput⟩ }
      | cons b unread =>
          obtain ⟨timeUs, hTime⟩ := exists_kKeyTime h.split
          have hRead := h.mapTime hInput hOpen hTime hCount
          obtain ⟨f', hAgain⟩ :=
            ((f.advance (s.answers unread)).mapTime b timeUs).exists_copyFrom b
          have hSame := Fill.copyFrom_same hAgain
          have hTracks := Tracks.copyFrom (f := (f.advance (s.answers unread)).mapTime b timeUs)
            hRead rfl hOpen hAgain
          refine .inl ⟨f', read ++ [b], unread, ?_, ⟨hSame.frames, hSame.eos, hSame.room⟩, hTracks⟩
          have hFrame : f.player.mFrameSize ≠ 0 := h.opened.1 ▸ Nat.ne_of_gt s.frameSize_pos
          have hRate : f.player.mSampleRate ≠ 0 := h.opened.2 ▸ Nat.ne_of_gt s.sampleRate_pos
          rw [← hAgain]
          simp [answers, Fill.read, Player.answer, Fill.accept, Fill.advance, hTime, hSeeking,
            hFrame, hRate]

/-- The frames of the call are counted when the loop is over. -/
theorem Tracks.finish (h : s.Tracks aligned read unread (given ++ f.data) f.player) :
    ∃ p, f.finish = .returned p f.data ∧ s.Tracks aligned read unread (given ++ f.data) p ∧
      p.mReachedEOS = f.player.mReachedEOS ∧
      p.mNumFramesPlayed = f.player.mNumFramesPlayed + f.data.length / s.sink.frameSize := by
  have hFrame : ¬ s.sink.frameSize = 0 := by
    have hPos := s.frameSize_pos
    omega
  refine ⟨{ f.player with mNumFramesPlayed :=
    f.player.mNumFramesPlayed + f.data.length / f.player.mFrameSize }, ?_, { h with }, rfl, ?_⟩
  · simp [Fill.finish, h.opened.1, hFrame, h.idle.2.2]
  · simp [h.opened.1]

/-- What a call fills comes next in the stream. It is less than there is room for only at the
end. -/
theorem Tracks.fillLoop {size fuel : Nat} {filled : Filled}
    (h : s.Tracks aligned read unread (given ++ f.data) f.player)
    (hOpen : f.player.mReachedEOS = false)
    (hCount : aligned → f.player.mNumFramesPlayed * s.sink.frameSize = given.length)
    (hFilled : fillLoop size fuel f = some filled) :
    ∃ p bytes read' unread', filled = .returned p bytes ∧
      s.Tracks aligned read' unread' (given ++ bytes) p ∧
      p.mNumFramesPlayed = f.player.mNumFramesPlayed + bytes.length / s.sink.frameSize ∧
      (p.mReachedEOS = false → bytes.length = f.data.length + f.remaining) := by
  induction fuel generalizing f read unread with
  | zero => cases hFilled
  | succ fuel ih =>
      rw [AudioPlayer.fillLoop] at hFilled
      split_ifs at hFilled with hRoom
      · obtain ⟨p, hFinish, hTracks, -, hFrames⟩ := h.finish
        cases hFilled
        exact ⟨p, f.data, read, unread, hFinish, hTracks, hFrames, fun _ => by omega⟩
      · rcases h.pass size hOpen hCount with
          ⟨f', read', unread', hPass, hSame, hTracks⟩ |
          ⟨f', hPass, hData, hSame, hEOS, hTracks⟩
        · simp only [hPass] at hFilled
          rw [← hSame.frames] at hCount
          rw [← hSame.frames, ← hSame.room]
          exact ih hTracks (hSame.eos.trans hOpen) hCount hFilled
        · simp only [hPass] at hFilled
          cases hFilled
          rw [← hData] at hTracks
          obtain ⟨p, hFinish, hTracks, hStays, hFrames⟩ := hTracks.finish
          refine ⟨p, f'.data, read, unread, hFinish, hTracks, by rw [hFrames, hSame], ?_⟩
          intro hStill
          simp [hStays, hEOS] at hStill

/-- The frames of all bytes that have been given are counted. -/
def Counts (s : Stream) (aligned : Prop) (given : List UInt8) (p : Player) : Prop :=
  aligned → p.mNumFramesPlayed * s.sink.frameSize = given.length

/-- At the end all bytes of the stream have been given. -/
theorem Tracks.complete {p : Player} (h : s.Tracks aligned read unread given p)
    (hEOS : p.mReachedEOS = true) : given = s.bytes := by
  obtain ⟨rfl, hInput⟩ := h.ended hEOS
  have hBytes := h.bytes
  simp only [Player.heldBytes, hInput, Option.map_none, Option.getD_none, List.append_nil] at hBytes
  rw [hBytes, Stream.bytes, h.split, List.append_nil]

theorem dvd_length_flatMap {n : Nat} {buffers : List MediaBuffer}
    (hBuffers : ∀ b ∈ buffers, n ∣ b.range.length) :
    n ∣ (buffers.flatMap MediaBuffer.range).length := by
  induction buffers with
  | nil => simp
  | cons b rest ih =>
      rw [List.flatMap_cons, List.length_append]
      exact Nat.dvd_add (hBuffers b (by simp)) (ih fun c hMem => hBuffers c (by simp [hMem]))

/-- A call with a size and buffers that are cut between frames gives whole frames. -/
theorem Tracks.dvd_length {size : Nat} {bytes : List UInt8} {p : Player}
    (h : s.Tracks aligned read unread (given ++ bytes) p)
    (hFull : p.mReachedEOS = false → bytes.length = size) (hGiven : s.sink.frameSize ∣ given.length)
    (hSize : s.sink.frameSize ∣ size)
    (hBuffers : ∀ b ∈ s.buffers, s.sink.frameSize ∣ b.range.length) :
    s.sink.frameSize ∣ bytes.length := by
  cases hEOS : p.mReachedEOS with
  | false => rwa [hFull hEOS]
  | true =>
      have hAll : s.sink.frameSize ∣ s.bytes.length := dvd_length_flatMap hBuffers
      rw [← h.complete hEOS, List.length_append] at hAll
      exact (Nat.dvd_add_right hGiven).mp hAll

theorem Tracks.fillBuffer (size : Nat) {p : Player} (h : s.Tracks aligned read unread given p)
    (hCount : s.Counts aligned given p) (hAligned : aligned → s.Aligned [size]) :
    ∃ p' bytes read' unread', fillBuffer p size = some (.returned p' bytes) ∧
      s.Tracks aligned read' unread' (given ++ bytes) p' ∧
      s.Counts aligned (given ++ bytes) p' ∧
      (p'.mReachedEOS = false → p.mReachedEOS = false) ∧
      (p'.mReachedEOS = false → bytes.length = size) := by
  obtain ⟨filled, hFilled⟩ := exists_fillBuffer p size
  cases hOpen : p.mReachedEOS with
  | true =>
      simp only [AudioPlayer.fillBuffer, hOpen, if_true] at hFilled ⊢
      exact ⟨p, [], read, unread, rfl, by simpa using h, by simpa using hCount, by simp [hOpen],
        by simp [hOpen]⟩
  | false =>
      simp only [AudioPlayer.fillBuffer, hOpen, Bool.false_eq_true, if_false] at hFilled ⊢
      obtain ⟨p', bytes, read', unread', rfl, hTracks, hFrames, hFull⟩ :=
        Tracks.fillLoop (f := ⟨p, [], size⟩) (by simpa using h) hOpen hCount hFilled
      simp only [List.length_nil, Nat.zero_add] at hFull
      refine ⟨p', bytes, read', unread', hFilled, hTracks, fun hHolds => ?_, fun _ => trivial,
        hFull⟩
      obtain ⟨hSize, hBuffers⟩ := hAligned hHolds
      have hGiven : s.sink.frameSize ∣ given.length := ⟨_, by rw [← hCount hHolds, Nat.mul_comm]⟩
      have hBytes := hTracks.dvd_length hFull hGiven (hSize size (by simp)) hBuffers
      rw [hFrames, Nat.add_mul, hCount hHolds, Nat.div_mul_cancel hBytes, List.length_append]

/-- A run of calls gives what comes next in the stream. -/
theorem Tracks.fillAll {sizes : List Nat} {p : Player} (h : s.Tracks aligned read unread given p)
    (hCount : s.Counts aligned given p) (hAligned : aligned → s.Aligned sizes) :
    ∃ p' chunks read' unread', fillAll p sizes = some (p', chunks) ∧
      s.Tracks aligned read' unread' (given ++ chunks.flatten) p' ∧
      s.Counts aligned (given ++ chunks.flatten) p' ∧
      (p'.mReachedEOS = false → p.mReachedEOS = false ∧ chunks.map List.length = sizes) := by
  induction sizes generalizing p read unread given with
  | nil => exact ⟨p, [], read, unread, rfl, by simpa using h, by simpa using hCount, by simp⟩
  | cons size sizes ih =>
      obtain ⟨q, bytes, read', unread', hFilled, hTracks, hCounts, hOpen, hFull⟩ :=
        h.fillBuffer size hCount fun hHolds =>
          ⟨fun n hMem => (hAligned hHolds).1 n (by simp_all), (hAligned hHolds).2⟩
      obtain ⟨p', chunks, read'', unread'', hAll, hTracks', hCounts', hRest⟩ :=
        ih hTracks hCounts fun hHolds =>
          ⟨fun n hMem => (hAligned hHolds).1 n (by simp [hMem]), (hAligned hHolds).2⟩
      refine ⟨p', bytes :: chunks, read'', unread'', ?_, ?_, ?_, fun hEnd => ?_⟩
      · rw [AudioPlayer.fillAll, hFilled]
        simp [hAll]
      · simpa using hTracks'
      · simpa using hCounts'
      · obtain ⟨hStill, hChunks⟩ := hRest hEnd
        exact ⟨hOpen hStill, by simp [hFull hStill, hChunks]⟩

theorem tracks_start (s : Stream) (aligned : Prop) : s.Tracks aligned [] s.buffers [] s.start where
  split := rfl
  idle := ⟨rfl, rfl, rfl⟩
  opened := ⟨rfl, rfl⟩
  source := fun _ => rfl
  ended := fun hEOS => by cases hEOS
  bytes := rfl
  owned := rfl
  clock := fun _ => rfl
  now := fun mapping hLast => by cases hLast

/-- The sink gets the decoded stream, whatever sizes it asks for and wherever the buffers of the
source are cut. -/
theorem delivered_fillAll (s : Stream) (sizes : List Nat) :
    ∃ p chunks, AudioPlayer.fillAll s.start sizes = some (p, chunks) ∧
      s.Delivered sizes p chunks := by
  obtain ⟨p, chunks, read, unread, hAll, hTracks, hCounts, hFull⟩ :=
    (tracks_start s (s.Aligned sizes)).fillAll (fun _ => by simp [start]) id
  rw [List.nil_append] at hTracks hCounts
  refine ⟨p, chunks, hAll, {
    inOrder := ?_
    complete := hTracks.complete
    full := fun hOpen => (hFull hOpen).2
    owned := ⟨read, unread, hTracks.split, hTracks.owned, hTracks.source, fun hEOS => ?_,
      hTracks.clock⟩
    now := hTracks.now
    frames := fun hAligned => ?_ }⟩
  · rw [bytes, hTracks.split, List.flatMap_append, ← hTracks.bytes, List.append_assoc]
    exact List.prefix_append _ _
  · obtain ⟨hUnread, hInput⟩ := hTracks.ended hEOS
    exact ⟨hUnread, by simp [Player.heldIds, hInput]⟩
  · rw [hTracks.opened.1]
    exact hCounts hAligned

/-- Buffers of two, no and one frames, and calls for one, no and two frames and for another. -/
example : (AudioPlayer.fillAll
    (⟨44100, ⟨0, 2⟩, [⟨0, [1, 2, 3, 4], some 0⟩, ⟨1, [], some 7⟩, ⟨2, [5, 6], some 9⟩], -1011,
      by decide, by decide, by decide, by decide⟩ : Stream).start [2, 0, 4, 2]).map
      (fun last => (last.1.released, last.1.clock, last.2)) =
    some ([0, 1, 2], [(0, 0), (45, 7), (45, 9)], [[1, 2], [], [3, 4, 5, 6], []]) := by
  rfl

end Stream

end Meet.AudioPlayer
