import Meet.Common.Ring

/-! The frame ring of `PPMediaBufferGroup.cpp`. Addresses are offsets from
`mBuffer` and do not wrap; the 32-bit address arithmetic is in `Malformed`.
Each function below is one pass of the source function under `mLock`. A pass
that would block returns `wait`, and the caller tries again later. -/
namespace Meet

/-- The arguments of `push_buffer`. The field `origin` is proof data: it
numbers the `readSampleEx2` call that supplied the sample, and no modelled
function reads it. -/
structure Payload where
  data : List UInt8
  frameTime : Int
  isSync : Bool
  origin : Nat
deriving DecidableEq, Repr

/-- A `MediaBuffer` over ring memory. Its range is the whole buffer, because
`reset` is called on it and nothing calls `set_range` afterwards. -/
structure MediaBuffer where
  data : Nat
  size : Nat
  kKeyTime : Int
  kKeyIsSyncFrame : Bool
  origin : Nat
deriving DecidableEq, Repr

def MediaBuffer.region (b : MediaBuffer) : Region := ⟨b.data, b.size⟩

/-- The list `frames` is the chain from `mFirstBuffer` to `mLastBuffer`. -/
structure PPMediaBufferGroup where
  mBuffer : Memory
  mSize : Nat
  mPlayBufferingCount : Nat
  mReadingAddr : Nat
  mWritingAddr : Nat
  frames : List MediaBuffer
  mBufferingCount : Nat
  mStartBuffering : Bool
  mIsStreamDone : Bool
  mIsSeeking : Bool
  mIsStopping : Bool
  mLastSampleTime : Int

namespace PPMediaBufferGroup

/-- The constructor. `malloc` leaves the bytes unspecified; zero stands for
whatever they hold. -/
def new (size playBufferingCount : Nat) : PPMediaBufferGroup where
  mBuffer := fun _ => 0
  mSize := size
  mPlayBufferingCount := playBufferingCount
  mReadingAddr := 0
  mWritingAddr := 1
  frames := []
  mBufferingCount := 0
  mStartBuffering := true
  mIsStreamDone := false
  mIsSeeking := false
  mIsStopping := false
  mLastSampleTime := 0

/-- How one pass of `acquire_buffer` ends. `buffer` is the placement chosen;
the last three are its `ERROR_IO` returns. -/
inductive Acquired where
  | buffer (data : Nat)
  | wait
  | tooLarge
  | interrupted
  | shouldNeverHappen
deriving DecidableEq, Repr

def acquireBuffer (g : PPMediaBufferGroup) (len : Nat) : Acquired :=
  if len + 2 > g.mSize then .tooLarge
  else if g.mIsSeeking || g.mIsStopping then .interrupted
  else if g.mWritingAddr > g.mReadingAddr then
    if g.mWritingAddr + len + 1 < g.mSize then .buffer g.mWritingAddr
    else if len + 1 < g.mReadingAddr then .buffer 0
    else .wait
  else if g.mWritingAddr < g.mReadingAddr then
    if g.mWritingAddr + len + 1 < g.mReadingAddr then .buffer g.mWritingAddr
    else .wait
  else .shouldNeverHappen

/-- The frame that `push_buffer` builds at the acquired address. -/
def frameAt (p : Payload) (addr : Nat) : MediaBuffer :=
  ⟨addr, p.data.length, p.frameTime, p.isSync, p.origin⟩

/-- What `push_buffer` does once it has a buffer: copy, link, count, end the
pre-roll when enough frames are queued, and move the writing address. -/
def store (g : PPMediaBufferGroup) (p : Payload) (addr : Nat) : PPMediaBufferGroup :=
  { g with
    mBuffer := g.mBuffer.write addr p.data
    frames := g.frames ++ [frameAt p addr]
    mBufferingCount := g.mBufferingCount + 1
    mStartBuffering :=
      if g.mBufferingCount + 1 ≥ g.mPlayBufferingCount && g.mStartBuffering then false
      else g.mStartBuffering
    mWritingAddr := addr + p.data.length + 1
    mLastSampleTime := p.frameTime }

inductive Pushed where
  | ok
  | errorIo
  | wait
deriving DecidableEq, Repr

def pushBuffer (g : PPMediaBufferGroup) (p : Payload) : Pushed × PPMediaBufferGroup :=
  if p.data = [] then (.errorIo, g)
  else match g.acquireBuffer p.data.length with
    | .buffer addr => (.ok, g.store p addr)
    | .wait => (.wait, g)
    | .tooLarge | .interrupted | .shouldNeverHappen => (.errorIo, g)

inductive Popped where
  | frame (b : MediaBuffer)
  | endOfStream
  | wait
deriving DecidableEq, Repr

/-- Unlink the first frame, with `rest` behind it. -/
def takeFirst (rearm : Bool) (g : PPMediaBufferGroup) (rest : List MediaBuffer) :
    PPMediaBufferGroup :=
  { g with
    frames := rest
    mBufferingCount := g.mBufferingCount - 1
    mStartBuffering := if rest.isEmpty && rearm then true else g.mStartBuffering }

/-- One pass of `pop_buffer`. The flag `rearm` is the only difference between
the two copies of the function: whether taking the last frame starts the
pre-roll again. -/
def popBufferWith (rearm : Bool) (g : PPMediaBufferGroup) : Popped × PPMediaBufferGroup :=
  if g.mStartBuffering && !g.mIsStreamDone && !g.mIsStopping then (.wait, g)
  else if g.mIsStopping then (.endOfStream, g)
  else match g.frames with
    | [] =>
        if g.mIsStreamDone then (.endOfStream, g)
        else (.wait, { g with mStartBuffering := true })
    | b :: rest => (.frame b, g.takeFirst rearm rest)

def popBuffer : PPMediaBufferGroup → Popped × PPMediaBufferGroup := popBufferWith true

/-- `pop_buffer` of the copy in `a14`. -/
def popBufferA14 : PPMediaBufferGroup → Popped × PPMediaBufferGroup := popBufferWith false

/-- `signalBufferReturned`, called by the last `release` of a frame. It takes
no lock and does not look at what happened since the frame was popped. -/
def signalBufferReturned (g : PPMediaBufferGroup) (b : MediaBuffer) : PPMediaBufferGroup :=
  { g with mReadingAddr := b.data + b.size }

def clearAllBuffer (g : PPMediaBufferGroup) : PPMediaBufferGroup :=
  { g with
    frames := []
    mStartBuffering := true
    mBufferingCount := 0
    mWritingAddr := 1
    mReadingAddr := 0 }

/-- `clear_buffer` ignores its seek time. -/
def clearBuffer (g : PPMediaBufferGroup) (_seekTime : Int) : PPMediaBufferGroup :=
  g.clearAllBuffer

def notifyStreamdone (g : PPMediaBufferGroup) : PPMediaBufferGroup :=
  { g with mIsStreamDone := true, mStartBuffering := false }

def notifyStop (g : PPMediaBufferGroup) : PPMediaBufferGroup :=
  { g with mIsStopping := true, mStartBuffering := false }

def notifySeekstart (g : PPMediaBufferGroup) : PPMediaBufferGroup :=
  { g with mIsSeeking := true, mIsStreamDone := false }

def notifySeekdone (g : PPMediaBufferGroup) : PPMediaBufferGroup :=
  { g with mIsSeeking := false }

/-- Zero without a frame. Times are microseconds of a film and their difference does not
overflow. -/
def getCachedDurationUs (g : PPMediaBufferGroup) : Int :=
  match g.frames.head?, g.frames.getLast? with
  | some first, some last => last.kKeyTime - first.kKeyTime + 40 * 1000
  | _, _ => 0

def isBuffering (g : PPMediaBufferGroup) : Bool := g.mStartBuffering

/-- What a consumer reads from a frame of the ring. -/
def view (g : PPMediaBufferGroup) (b : MediaBuffer) : Payload :=
  ⟨g.mBuffer.read b.data b.size, b.kKeyTime, b.kKeyIsSyncFrame, b.origin⟩

section Specifications

variable {g : PPMediaBufferGroup}

/-- Everything a successful pass of `acquire_buffer` has checked. -/
theorem acquireBuffer_room {len addr : Nat} (hReading : g.mReadingAddr < g.mSize)
    (h : g.acquireBuffer len = .buffer addr) :
    RingRoom g.mSize g.mReadingAddr g.mWritingAddr len addr := by
  unfold acquireBuffer at h
  unfold RingRoom
  split_ifs at h <;> simp only [Acquired.buffer.injEq] at h <;> omega

/-- The last branch of `acquire_buffer` is taken only when the addresses meet. -/
theorem acquireBuffer_ne_shouldNeverHappen (len : Nat) (h : g.mWritingAddr ≠ g.mReadingAddr) :
    g.acquireBuffer len ≠ .shouldNeverHappen := by
  unfold acquireBuffer
  split_ifs <;> simp
  omega

/-- A push either leaves the group alone or stores the frame where a pass of
`acquire_buffer` found room. -/
theorem pushBuffer_cases {p : Payload} {result : Pushed} {g' : PPMediaBufferGroup}
    (h : g.pushBuffer p = (result, g')) :
    (result ≠ .ok ∧ g' = g) ∨
    (result = .ok ∧ p.data ≠ [] ∧ ∃ addr, g.acquireBuffer p.data.length = .buffer addr ∧
      g' = g.store p addr) := by
  unfold pushBuffer at h
  split_ifs at h with hEmpty
  · obtain ⟨rfl, rfl⟩ := Prod.mk.inj h
    exact Or.inl ⟨by simp, rfl⟩
  · cases hAcquire : g.acquireBuffer p.data.length with
    | buffer addr =>
        simp only [hAcquire, Prod.mk.injEq] at h
        exact Or.inr ⟨h.1.symm, hEmpty, addr, rfl, h.2.symm⟩
    | wait | tooLarge | interrupted | shouldNeverHappen =>
        simp only [hAcquire, Prod.mk.injEq] at h
        exact Or.inl ⟨by simp [← h.1], h.2.symm⟩

/-- What one pass of `pop_buffer` can do. Addresses, memory and the three
request flags are never touched. -/
theorem popBufferWith_cases {rearm : Bool} {result : Popped} {g' : PPMediaBufferGroup}
    (h : popBufferWith rearm g = (result, g')) :
    (result = .wait ∧ g.mIsStreamDone = false ∧ g.mIsStopping = false ∧
      g' = { g with mStartBuffering := true }) ∨
    (result = .endOfStream ∧ g' = g ∧
      (g.mIsStopping = true ∨ (g.mIsStreamDone = true ∧ g.frames = []))) ∨
    (∃ b rest started, g.frames = b :: rest ∧ g.mIsStopping = false ∧ result = .frame b ∧
      g' = { g with
        frames := rest
        mBufferingCount := g.mBufferingCount - 1
        mStartBuffering := started }) := by
  unfold popBufferWith at h
  by_cases hWait : (g.mStartBuffering && !g.mIsStreamDone && !g.mIsStopping) = true
  · rw [if_pos hWait] at h
    obtain ⟨rfl, rfl⟩ := Prod.mk.inj h
    simp only [Bool.and_eq_true, Bool.not_eq_true'] at hWait
    obtain ⟨⟨hStart, hDone⟩, hStop⟩ := hWait
    exact Or.inl ⟨rfl, hDone, hStop, by rw [← hStart]⟩
  · rw [if_neg hWait] at h
    by_cases hStop : g.mIsStopping = true
    · rw [if_pos hStop] at h
      obtain ⟨rfl, rfl⟩ := Prod.mk.inj h
      exact Or.inr (Or.inl ⟨rfl, rfl, Or.inl hStop⟩)
    · rw [if_neg hStop] at h
      have hStop := Bool.eq_false_iff.mpr hStop
      cases hFrames : g.frames with
      | nil =>
          simp only [hFrames] at h
          by_cases hDone : g.mIsStreamDone = true
          · rw [if_pos hDone] at h
            obtain ⟨rfl, rfl⟩ := Prod.mk.inj h
            exact Or.inr (Or.inl ⟨rfl, rfl, Or.inr ⟨hDone, rfl⟩⟩)
          · rw [if_neg hDone] at h
            obtain ⟨rfl, rfl⟩ := Prod.mk.inj h
            exact Or.inl ⟨rfl, Bool.eq_false_iff.mpr hDone, hStop, rfl⟩
      | cons b rest =>
          simp only [hFrames, Prod.mk.injEq] at h
          exact Or.inr (Or.inr ⟨b, rest, _, rfl, hStop, h.1.symm, h.2.symm⟩)

/-- A stored frame reads back as what `push_buffer` was given. -/
theorem view_store_frameAt (g : PPMediaBufferGroup) (p : Payload) (addr : Nat) :
    (g.store p addr).view (frameAt p addr) = p := by
  simp [view, store, frameAt, Memory.read_write]

/-- Storing a frame does not change what any frame apart from it reads as. -/
theorem view_store_of_disjoint {p : Payload} {addr : Nat} {b : MediaBuffer}
    (h : Region.Disjoint ⟨addr, p.data.length⟩ b.region) :
    (g.store p addr).view b = g.view b := by
  simp only [view, store, Payload.mk.injEq, and_true]
  refine Memory.read_write_of_disjoint _ _ _ _ _ ?_
  simp only [Region.Disjoint, Region.stop, MediaBuffer.region] at h
  omega

/-- The frames in use, oldest first, lie in the ring as its two addresses say. -/
def Layout (g : PPMediaBufferGroup) (live : List MediaBuffer) : Prop :=
  RingLayout g.mSize g.mReadingAddr g.mWritingAddr (live.map MediaBuffer.region)

theorem Layout.new {size : Nat} (playBufferingCount : Nat) (hSize : 1 < size) :
    (new size playBufferingCount).Layout [] :=
  RingLayout.empty hSize

theorem Layout.clear {live : List MediaBuffer} (h : g.Layout live) :
    g.clearAllBuffer.Layout [] := by
  have hSize : 1 < g.mSize := by
    have hWriting := h.writing_lt
    have hReading := h.reading_lt
    have hApart := h.cursors_ne
    omega
  exact RingLayout.empty hSize

theorem Layout.inside {live : List MediaBuffer} (h : g.Layout live) {b : MediaBuffer}
    (hMem : b ∈ live) : b.region.stop < g.mSize :=
  h.stop_lt (List.mem_map_of_mem hMem)

theorem Layout.pairwise {live : List MediaBuffer} (h : g.Layout live) :
    live.Pairwise fun a b => a.region.Disjoint b.region :=
  List.pairwise_map.mp (RingLayout.pairwise h)

section Store

variable {live : List MediaBuffer} {p : Payload} {addr : Nat}
    (hLayout : g.Layout live)
    (hRoom : RingRoom g.mSize g.mReadingAddr g.mWritingAddr p.data.length addr)
include hLayout hRoom

theorem Layout.store_disjoint {b : MediaBuffer} (hMem : b ∈ live) :
    Region.Disjoint ⟨addr, p.data.length⟩ b.region :=
  hLayout.room_disjoint hRoom (List.mem_map_of_mem hMem)

theorem Layout.store : (g.store p addr).Layout (live ++ [frameAt p addr]) := by
  have hPlace := hLayout.place hRoom
  simpa [Layout, PPMediaBufferGroup.store, MediaBuffer.region, frameAt] using hPlace

/-- Every frame in use reads the same after a store, and the new one reads
as what was stored. -/
theorem Layout.map_view_store :
    (live ++ [frameAt p addr]).map (g.store p addr).view = live.map g.view ++ [p] := by
  rw [List.map_append, List.map_singleton, view_store_frameAt]
  congr 1
  apply List.map_congr_left
  intro b hb
  exact view_store_of_disjoint (hLayout.store_disjoint hRoom hb)

end Store

theorem Layout.release {b : MediaBuffer} {live : List MediaBuffer} (h : g.Layout (b :: live)) :
    (g.signalBufferReturned b).Layout live :=
  RingLayout.giveBack h

end Specifications
end PPMediaBufferGroup
end Meet
