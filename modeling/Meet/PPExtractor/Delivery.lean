import Meet.PPExtractor.PreRoll
import Meet.PPExtractor.Pump

/-! In-order delivery. Without seeks and stops, the samples that a track wants
are at any time those delivered, those in the ring and the one in hand of the
producer, in this order. The law fails in one place: `acquire_buffer` compares
its two addresses twice, and a release between the comparisons can make it drop
a sample that fits. -/
namespace Meet.PPExtractor

/-- The track that `threadEntry` takes a stream for. -/
def Config.trackOf (cfg : Config) (streamIndex : Nat) : Option Track :=
  if streamIndex = cfg.mVideoTrackID then some .video
  else if streamIndex = cfg.mAudioTrackID then some .audio
  else none

/-- The bytes a sample should be delivered with. -/
def Sample.converted (cfg : Config) (sample : Sample) : Track → Option (List UInt8)
  | .video =>
      match constructNalus cfg sample.buffer sample.bufferLength (sample.bufferLength + 1) with
      | some (.written dst) => some dst
      | _ => none
  | .audio => some (sample.buffer.read 0 sample.bufferLength)

/-- A payload that has data and that a group of the track can hold. -/
def deliverable (t : Track) (p : Payload) : Bool :=
  p.data ≠ [] && p.data.length + 2 ≤ (newGroup t).mSize

/-- What a track should deliver for the result number `origin`. -/
def wantedOf (cfg : Config) (t : Track) (origin : Nat) : ReadResult → Option Payload
  | .sample sample =>
      if cfg.trackOf sample.streamIndex = some t then
        (((sample.converted cfg t).map fun data =>
          ⟨data, sample.startTime, sample.isSync, origin⟩)).filter (deliverable t)
      else none
  | .wouldBlock | .streamEnd | .error _ => none

/-- What a track should deliver for all results read. -/
def wanted (cfg : Config) (t : Track) (reads : List ReadResult) : List Payload :=
  reads.zipIdx.filterMap fun read => wantedOf cfg t read.2 read.1

theorem wanted_snoc (cfg : Config) (t : Track) (reads : List ReadResult) (result : ReadResult) :
    wanted cfg t (reads ++ [result]) =
      wanted cfg t reads ++ (wantedOf cfg t reads.length result).toList := by
  cases hWanted : wantedOf cfg t reads.length result <;>
    simp [wanted, List.zipIdx_append, hWanted]

/-- A sample that belongs to a track; a video sample is well formed, with length
fields of three or four bytes. -/
def Sample.acceptable (cfg : Config) (sample : Sample) : Bool :=
  match cfg.trackOf sample.streamIndex with
  | some .video =>
      (3 ≤ cfg.mNALLengthSize && cfg.mNALLengthSize ≤ 4) && sample.wellFormed cfg
  | some .audio => true
  | none => false

/-- What the demuxer and the callers promise: acceptable samples, no seek and no
stop, and every frame is released before the next read of its track. -/
def Promised (cfg : Config) (s : State) : Act → Prop
  | .seekTo _ | .stop => False
  | .readSample (.sample sample) _ => sample.acceptable cfg = true
  | .read t => s.held t = []
  | _ => True

instance (cfg : Config) (s : State) (act : Act) : Decidable (Promised cfg s act) :=
  match act with
  | .seekTo _ | .stop => .isFalse id
  | .readSample (.sample _) _ => inferInstanceAs (Decidable (_ = _))
  | .read _ => inferInstanceAs (Decidable (_ = _))
  | .readSample .wouldBlock _ | .readSample .streamEnd _ | .readSample (.error _) _
  | .producer | .spuriousWake | .seeker | .start | .control | .reader _ | .release _ _
  | .releaseOrphan _ _ => .isTrue trivial

/-- The producer is between the two comparisons in the group of a track. -/
def ProducerPc.comparing (t : Track) : ProducerPc → Bool
  | .push t' _ .cmpBelow => t' = t
  | _ => false

/-- Between the two comparisons of `acquire_buffer`, no release moves the reading
address from above the writing address to below it. -/
def KeepsComparison (s : State) : Act → Prop
  | .release t index => ∀ g ∈ s.group t, ∀ b ∈ (s.held t)[index]?,
      s.producer.comparing t = true → g.mWritingAddr < b.data + b.size
  | _ => True

instance (s : State) (act : Act) : Decidable (KeepsComparison s act) :=
  match act with
  | .release _ _ => inferInstanceAs (Decidable (∀ g ∈ _, ∀ b ∈ _, _ → _))
  | .readSample _ _ | .producer | .spuriousWake | .seekTo _ | .seeker | .start | .stop | .control
  | .read _ | .reader _ | .releaseOrphan _ _ => .isTrue trivial

def DeliveryGuard (cfg : Config) (s : State) (act : Act) : Prop :=
  Promised cfg s act ∧ KeepsComparison s act

instance (cfg : Config) (s : State) (act : Act) : Decidable (DeliveryGuard cfg s act) :=
  inferInstanceAs (Decidable (_ ∧ _))

/-- The frames returned are the first ones wanted; those not yet released still
read as they were delivered; and the end is reported only after it has been read
and everything wanted has been delivered. -/
structure Delivers (cfg : Config) (s : State) : Prop where
  inOrder : ∀ t, s.delivered t <+: wanted cfg t s.reads
  intact : ∀ t g, s.group t = some g → (s.held t).map g.view <:+ s.delivered t
  ended : ∀ t, s.reader t = .returned .endOfStream →
    s.reads.any ReadResult.ends = true ∧ s.delivered t = wanted cfg t s.reads

/-- The payload that the producer is about to put into a group. -/
def ProducerPc.inHand (t : Track) : ProducerPc → List Payload
  | .push t' p _ => if t' = t ∧ p.data.length + 2 ≤ (newGroup t).mSize then [p] else []
  | _ => []

/-- What the producer has found out about a group. -/
def PushPc.Found (g : PPMediaBufferGroup) (len : Nat) : PushPc → Prop
  | .enter => True
  | .frontTest => len + 2 ≤ g.mSize ∧ g.mReadingAddr < g.mWritingAddr
  | .cmpBelow => len + 2 ≤ g.mSize ∧ g.mWritingAddr < g.mReadingAddr
  | .store addr =>
      len + 2 ≤ g.mSize ∧ RingRoom g.mSize g.mReadingAddr g.mWritingAddr len addr
  | .acquiring | .cmpAbove | .middleTest | .waiting | .asleep _ => len + 2 ≤ g.mSize

def ProducerPc.Found (t : Track) (g : PPMediaBufferGroup) : ProducerPc → Prop
  | .push t' p pc => t' = t → pc.Found g p.data.length
  | _ => True

/-- The law of one track with its group. -/
structure Lane (cfg : Config) (t : Track) (reads : List ReadResult) (pc : ProducerPc)
    (reader : ReaderPc) (held : List MediaBuffer) (delivered : List Payload)
    (g : PPMediaBufferGroup) : Prop where
  size : g.mSize = (newGroup t).mSize
  calm : g.mIsSeeking = false ∧ g.mIsStopping = false
  layout : g.Layout (held ++ g.frames)
  whole : wanted cfg t reads = delivered ++ g.frames.map g.view ++ pc.inHand t
  intact : held.map g.view <:+ delivered
  single : held.length ≤ 1
  released : reader.active = true → held = []
  exclusive : pc.holdsGroup t = true → reader.holdsGroup = false
  found : pc.Found t g
  drained : reader = .doneTest → g.frames = []
  ended : reader = .returned .endOfStream → g.mIsStreamDone = true ∧ g.frames = []

namespace Lane

variable {cfg : Config} {t : Track} {reads : List ReadResult} {pc : ProducerPc}
    {reader : ReaderPc} {held : List MediaBuffer} {delivered : List Payload}
    {g : PPMediaBufferGroup}

theorem new (cfg : Config) {pc : ProducerPc} {reader : ReaderPc}
    (hPc : pc = .loopTest) (hReader : reader = .idle ∨ reader = .returned .errorIo) :
    Lane cfg t [] pc reader [] [] (newGroup t) := by
  subst hPc
  constructor
  case layout => cases t <;> exact PPMediaBufferGroup.Layout.new _ (by decide)
  case whole => cases t <;> rfl
  case found => trivial
  all_goals cases t <;> rcases hReader with rfl | rfl <;>
    simp [newGroup, PPMediaBufferGroup.new, ReaderPc.active, ProducerPc.holdsGroup]

/-- The producer moves on without touching the group. -/
theorem move (h : Lane cfg t reads pc reader held delivered g) {pc' : ProducerPc}
    (hHand : pc'.inHand t = pc.inHand t)
    (hHolds : pc'.holdsGroup t = true → pc.holdsGroup t = true ∨ reader.holdsGroup = false)
    (hFound : pc'.Found t g) : Lane cfg t reads pc' reader held delivered g where
  size := h.size
  calm := h.calm
  layout := h.layout
  whole := by rw [hHand, h.whole]
  intact := h.intact
  single := h.single
  released := h.released
  exclusive := fun hNext => (hHolds hNext).elim h.exclusive id
  found := hFound
  drained := h.drained
  ended := h.ended

/-- The producer moves where it has nothing in hand and no lock. -/
theorem leave (h : Lane cfg t reads pc reader held delivered g) {pc' : ProducerPc}
    (hBefore : pc.inHand t = []) (hPush : ∀ t p next, pc' ≠ .push t p next) :
    Lane cfg t reads pc' reader held delivered g := by
  cases pc' with
  | push t p next => exact absurd rfl (hPush t p next)
  | _ => exact h.move (by rw [hBefore]; rfl) (by simp [ProducerPc.holdsGroup]) trivial

/-- The reader moves on without touching the group. -/
theorem setReader (h : Lane cfg t reads pc reader held delivered g) {reader' : ReaderPc}
    (hReleased : reader'.active = true → held = [])
    (hHolds : reader'.holdsGroup = true → pc.holdsGroup t = true → reader.holdsGroup = true)
    (hDrained : reader' = .doneTest → g.frames = [])
    (hEnded : reader' = .returned .endOfStream → g.mIsStreamDone = true ∧ g.frames = []) :
    Lane cfg t reads pc reader' held delivered g where
  size := h.size
  calm := h.calm
  layout := h.layout
  whole := h.whole
  intact := h.intact
  single := h.single
  released := hReleased
  exclusive := by
    intro hPc
    have hFree := h.exclusive hPc
    by_contra hReader
    exact absurd (hHolds (by simpa using hReader) hPc) (by simp [hFree])
  found := h.found
  drained := hDrained
  ended := hEnded

/-- The flags that a lane does not read may change. -/
theorem relabel (h : Lane cfg t reads pc reader held delivered g) (startBuffering done : Bool)
    (hDone : g.mIsStreamDone = true → done = true) :
    Lane cfg t reads pc reader held delivered
      { g with mStartBuffering := startBuffering, mIsStreamDone := done } where
  size := h.size
  calm := h.calm
  layout := h.layout
  whole := h.whole
  intact := h.intact
  single := h.single
  released := h.released
  exclusive := h.exclusive
  found := by
    have hFound := h.found
    cases pc with
    | push t' p next => cases next <;> exact hFound
    | _ => trivial
  drained := h.drained
  ended := fun hEnd => ⟨hDone (h.ended hEnd).1, (h.ended hEnd).2⟩

/-- The frame in hand goes into the ring behind the others. -/
theorem store {p : Payload} {addr : Nat}
    (h : Lane cfg t reads (.push t p (.store addr)) reader held delivered g)
    (hReader : reader ≠ .returned .endOfStream) :
    Lane cfg t reads .loopTest reader held delivered (g.store p addr) := by
  obtain ⟨hFits, hRoom⟩ := h.found rfl
  have hView : ∀ b ∈ held ++ g.frames, (g.store p addr).view b = g.view b := fun b hMem =>
    PPMediaBufferGroup.view_store_of_disjoint (h.layout.store_disjoint hRoom hMem)
  have hHeld : held.map (g.store p addr).view = held.map g.view :=
    List.map_congr_left fun b hMem => hView b (List.mem_append_left _ hMem)
  have hFrames : g.frames.map (g.store p addr).view = g.frames.map g.view :=
    List.map_congr_left fun b hMem => hView b (List.mem_append_right _ hMem)
  refine ⟨h.size, h.calm, ?_, ?_, ?_, h.single, h.released, by simp [ProducerPc.holdsGroup],
    trivial, ?_, fun hEnd => absurd hEnd hReader⟩
  · have hLayout := h.layout.store hRoom
    rwa [List.append_assoc] at hLayout
  · have hInHand : ProducerPc.inHand t (.push t p (.store addr)) = [p] :=
      if_pos ⟨rfl, h.size ▸ hFits⟩
    have hAfter : ProducerPc.inHand t .loopTest = [] := rfl
    have hStored : (g.store p addr).frames = g.frames ++ [PPMediaBufferGroup.frameAt p addr] := rfl
    rw [h.whole, hInHand, hAfter, hStored, List.map_append, hFrames, List.map_singleton,
      PPMediaBufferGroup.view_store_frameAt, List.append_nil, List.append_assoc]
  · exact hHeld ▸ h.intact
  · intro hDone
    have hFree := h.exclusive (by simp [ProducerPc.holdsGroup, PushPc.holdsGroup])
    simp [hDone, ReaderPc.holdsGroup] at hFree

/-- The reader takes the first frame. -/
theorem pop (h : Lane cfg t reads pc .headTest held delivered g) {b : MediaBuffer}
    {rest : List MediaBuffer} (hFrames : g.frames = b :: rest) :
    Lane cfg t reads pc (.returned (.frame b)) (held ++ [b]) (delivered ++ [g.view b])
      (g.takeFirst true rest) := by
  obtain rfl : held = [] := h.released rfl
  have hLayout := h.layout
  have hWhole := h.whole
  rw [hFrames] at hLayout hWhole
  refine ⟨h.size, h.calm, hLayout, ?_, List.suffix_append _ _, Nat.le_refl _,
    by simp [ReaderPc.active], by simp [ReaderPc.holdsGroup], ?_, by simp, by simp⟩
  · rw [hWhole]
    simp [PPMediaBufferGroup.takeFirst, PPMediaBufferGroup.view]
  · have hFound := h.found
    cases pc with
    | push t' p next => cases next <;> exact hFound
    | _ => trivial

/-- What the producer has found out stays true when the oldest frame is given
back, unless it is between the comparisons. -/
theorem found_release {b : MediaBuffer} (h : Lane cfg t reads pc reader [b] delivered g)
    (hKeeps : pc.comparing t = true → g.mWritingAddr < b.data + b.size) :
    pc.Found t (g.signalBufferReturned b) := by
  have hFound := h.found
  have hLayout : RingLayout g.mSize g.mReadingAddr g.mWritingAddr
      (b.region :: g.frames.map MediaBuffer.region) := h.layout
  cases pc with
  | push t' p next =>
      intro hHere
      have hBefore := hFound hHere
      cases next with
      | frontTest => exact ⟨hBefore.1, hLayout.giveBack_below hBefore.2⟩
      | cmpBelow => exact ⟨hBefore.1, hKeeps (by simpa [ProducerPc.comparing] using hHere)⟩
      | store addr => exact ⟨hBefore.1, hLayout.room_giveBack hBefore.2⟩
      | enter | acquiring | cmpAbove | middleTest | waiting | asleep => exact hBefore
  | _ => trivial

theorem release {b : MediaBuffer} (h : Lane cfg t reads pc reader [b] delivered g)
    (hKeeps : pc.comparing t = true → g.mWritingAddr < b.data + b.size) :
    Lane cfg t reads pc reader [] delivered (g.signalBufferReturned b) where
  size := h.size
  calm := h.calm
  layout := h.layout.release
  whole := h.whole
  intact := List.nil_suffix
  single := Nat.zero_le _
  released := fun _ => rfl
  exclusive := h.exclusive
  found := h.found_release hKeeps
  drained := h.drained
  ended := h.ended

/-- A signal changes nothing that the lane reads. -/
theorem signal (h : Lane cfg t reads pc reader held delivered g) (u : Track) :
    Lane cfg t reads (pc.signal u) reader held delivered g := by
  rcases signal_cases pc u with hSame | ⟨t', p, signalled, rfl, hMoved⟩
  · exact hSame.symm ▸ h
  · rw [hMoved]
    exact h.move rfl (by simp [ProducerPc.holdsGroup, PushPc.holdsGroup]) h.found

/-- A push into another group. -/
theorem other {u : Track} {p : Payload} {next : PushPc} {pc' : ProducerPc} (hOther : u ≠ t)
    (h : Lane cfg t reads (.push u p next) reader held delivered g)
    (hNext : pc' = .loopTest ∨ ∃ next', pc' = .push u p next') :
    Lane cfg t reads pc' reader held delivered g := by
  rcases hNext with rfl | ⟨next', rfl⟩
  · exact h.leave (if_neg fun hHere => hOther hHere.1) (by simp)
  · exact h.move rfl (by simp [ProducerPc.holdsGroup, hOther]) fun hHere => absurd hHere hOther

/-- A result is read, and what the track wants of it is now in hand. -/
theorem read (h : Lane cfg t reads .reading reader held delivered g) {result : ReadResult}
    {pc' : ProducerPc} (hHand : pc'.inHand t = (wantedOf cfg t reads.length result).toList)
    (hNext : (∀ u p next, pc' ≠ .push u p next) ∨ ∃ u p, pc' = .push u p .enter) :
    Lane cfg t (reads ++ [result]) pc' reader held delivered g where
  size := h.size
  calm := h.calm
  layout := h.layout
  whole := by
    have hEmpty : ProducerPc.inHand t .reading = [] := rfl
    rw [wanted_snoc, h.whole, hEmpty, List.append_nil, hHand]
  intact := h.intact
  single := h.single
  released := h.released
  exclusive := by
    rcases hNext with hOut | ⟨u, p, rfl⟩
    · cases pc' with
      | push u p next => exact absurd rfl (hOut u p next)
      | _ => simp [ProducerPc.holdsGroup]
    · simp [ProducerPc.holdsGroup, PushPc.holdsGroup]
  found := by
    rcases hNext with hOut | ⟨u, p, rfl⟩
    · cases pc' with
      | push u p next => exact absurd rfl (hOut u p next)
      | _ => trivial
    · exact fun _ => trivial
  drained := h.drained
  ended := h.ended

end Lane

section Push

variable {cfg : Config} {s s' : State} {t : Track} {g : PPMediaBufferGroup} {p : Payload}
    {pc : PushPc}

/-- A step inside `push_buffer` keeps the law of the track: the sample in hand is
stored, stays in hand, or was none that the track wants. -/
theorem pushStep_lane
    (h : Lane cfg t s.reads (.push t p pc) (s.reader t) (s.held t) (s.delivered t) g)
    (hStep : pushStep s t g p pc = some s') :
    (∃ next, s' = { s with producer := next } ∧
      Lane cfg t s.reads next (s.reader t) (s.held t) (s.delivered t) g) ∨
    (∃ addr, pc = .store addr ∧
      s' = { s.onGroup t (·.store p addr) with producer := .loopTest }) := by
  have hFound := h.found rfl
  have hApart := h.layout.cursors_ne
  have hInside := h.layout.reading_lt
  have hGoto : ∀ {next}, some { s with producer := ProducerPc.push t p next } = some s' →
      pc.holdsGroup = true ∨ (s.reader t).holdsGroup = false → next.Found g p.data.length →
      ∃ next, s' = { s with producer := next } ∧
        Lane cfg t s.reads next (s.reader t) (s.held t) (s.delivered t) g := by
    intro next hSame hHolds hNext
    refine ⟨_, (Option.some.inj hSame).symm, h.move rfl ?_ fun _ => hNext⟩
    grind [ProducerPc.holdsGroup]
  unfold pushStep at hStep
  cases pc with
  | store addr => exact Or.inr ⟨addr, rfl, (Option.some.inj hStep).symm⟩
  | enter =>
      simp only at hStep
      split_ifs at hStep with hReader hLarge
      · refine Or.inl ⟨_, (Option.some.inj hStep).symm, h.leave (if_neg ?_) (by simp)⟩
        rw [← h.size]
        omega
      · exact Or.inl (hGoto hStep (Or.inr (by simpa using hReader)) (Nat.le_of_not_lt hLarge))
  | acquiring =>
      simp only [h.calm.1, h.calm.2, Bool.or_self, Bool.false_eq_true, if_false] at hStep
      exact Or.inl (hGoto hStep (Or.inl rfl) hFound)
  | cmpAbove =>
      simp only at hStep
      split_ifs at hStep with hAbove hEnd
      · exact Or.inl (hGoto hStep (Or.inl rfl) ⟨hFound, Or.inl ⟨rfl, hEnd, by omega⟩⟩)
      · exact Or.inl (hGoto hStep (Or.inl rfl) ⟨hFound, hAbove⟩)
      · exact Or.inl (hGoto hStep (Or.inl rfl) ⟨hFound, by omega⟩)
  | frontTest =>
      simp only at hStep
      split_ifs at hStep with hFront
      · exact Or.inl (hGoto hStep (Or.inl rfl) ⟨hFound.1, Or.inr ⟨rfl, hFound.2, hFront⟩⟩)
      · exact Or.inl (hGoto hStep (Or.inl rfl) hFound.1)
  | cmpBelow =>
      simp only [hFound.2, if_true] at hStep
      exact Or.inl (hGoto hStep (Or.inl rfl) hFound.1)
  | middleTest =>
      simp only at hStep
      split_ifs at hStep with hMiddle
      · exact Or.inl (hGoto hStep (Or.inl rfl) ⟨hFound, Or.inl ⟨rfl, by omega, fun _ => hMiddle⟩⟩)
      · exact Or.inl (hGoto hStep (Or.inl rfl) hFound)
  | waiting => exact Or.inl (hGoto hStep (Or.inl rfl) hFound)
  | asleep signalled =>
      simp only at hStep
      split_ifs at hStep with hWake
      exact Or.inl (hGoto hStep (Or.inr (by simp_all)) hFound)

end Push

section Conversion

variable {cfg : Config} {s : State}

/-- A call of `push_buffer` takes in hand what the track wants of the payload. -/
theorem enterPush_inHand {t u : Track} (p : Payload) (hGroup : (s.group u).isSome = true) :
    (enterPush s t p).inHand u =
      if t = u then ((some p).filter (deliverable u)).toList else [] := by
  by_cases hHere : t = u
  · subst hHere
    have hSome : (s.group t).isNone = false := by simpa using hGroup
    by_cases hData : p.data = []
    · simp [enterPush, hData, ProducerPc.inHand, deliverable]
    · have hPush : enterPush s t p = .push t p .enter := by simp [enterPush, hData, hSome]
      have hDeliverable :
          deliverable t p = decide (p.data.length + 2 ≤ (newGroup t).mSize) := by
        simp [deliverable, hData]
      simp only [hPush, ProducerPc.inHand, true_and, if_true, Option.filter_some, hDeliverable,
        decide_eq_true_eq]
      split_ifs <;> rfl
  · unfold enterPush
    split_ifs <;> simp [ProducerPc.inHand, hHere]

/-- A well-formed video sample is converted as the track wants it. -/
theorem handleVideo_eq {sample : Sample} {fuel : Nat} {outcome : Converted}
    (hTrack : cfg.trackOf sample.streamIndex = some .video)
    (hAcceptable : sample.acceptable cfg = true)
    (hRun : constructNalus cfg sample.buffer sample.bufferLength fuel = some outcome) :
    ∃ dst, sample.converted cfg .video = some dst ∧ handleVideo s sample outcome =
      enterPush s .video ⟨dst, sample.startTime, sample.isSync, s.reads.length⟩ := by
  simp only [Sample.acceptable, hTrack, Bool.and_eq_true, decide_eq_true_eq] at hAcceptable
  obtain ⟨dst, hWritten⟩ := constructNalus_of_wellFormed hAcceptable.1 hAcceptable.2
  obtain rfl := naluPasses_unique hRun hWritten
  exact ⟨dst, by simp [Sample.converted, hWritten], rfl⟩

/-- What the producer takes in hand is what each track wants of the result. -/
theorem handleRead_inHand {result : ReadResult} {fuel : Nat} {pc : ProducerPc}
    (hPromised : Promised cfg s (.readSample result fuel))
    (h : handleRead cfg s fuel result = some pc) :
    (pc = .loopTest ∨ (pc = .publish .video ∧ result.ends = true) ∨ ∃ t p, pc = .push t p .enter) ∧
    ∀ t, (s.group t).isSome = true →
      pc.inHand t = (wantedOf cfg t s.reads.length result).toList := by
  have hEnter : ∀ t p, enterPush s t p = .loopTest ∨ ∃ t' p', enterPush s t p = .push t' p' .enter :=
    fun t p => (enterPush_cases s t p).imp id fun hPush => ⟨t, p, hPush.1⟩
  cases result with
  | wouldBlock =>
      obtain rfl : ProducerPc.loopTest = pc := by simpa [handleRead] using h
      exact ⟨Or.inl rfl, fun _ _ => rfl⟩
  | streamEnd | error =>
      obtain rfl : ProducerPc.publish .video = pc := by simpa [handleRead] using h
      exact ⟨Or.inr (Or.inl ⟨rfl, rfl⟩), fun _ _ => rfl⟩
  | sample sample =>
      simp only [handleRead] at h
      have hAcceptable : sample.acceptable cfg = true := hPromised
      split_ifs at h with hVideo hAudio
      · have hTrack : cfg.trackOf sample.streamIndex = some .video := if_pos hVideo
        obtain ⟨outcome, hRun, rfl⟩ := Option.map_eq_some_iff.mp h
        obtain ⟨dst, hConverted, hHandled⟩ := @handleVideo_eq cfg s _ _ _ hTrack hAcceptable hRun
        rw [hHandled]
        refine ⟨(hEnter _ _).imp id Or.inr, fun t hGroup => ?_⟩
        rw [enterPush_inHand _ hGroup]
        cases t <;> simp [wantedOf, hTrack, hConverted]
      · have hTrack : cfg.trackOf sample.streamIndex = some .audio := by
          rw [Config.trackOf, if_neg hVideo, if_pos hAudio]
        obtain rfl := Option.some.inj h
        refine ⟨(hEnter _ _).imp id Or.inr, fun t hGroup => ?_⟩
        rw [enterPush_inHand _ hGroup]
        cases t <;> simp [wantedOf, hTrack, Sample.converted]
      · simp [Sample.acceptable, Config.trackOf, hVideo, hAudio] at hAcceptable

end Conversion

/-- The producer is about to publish the end of the stream. -/
def ProducerPc.publishing : ProducerPc → Bool
  | .publish _ | .publishFlag => true
  | _ => false

/-- The producer takes samples in. -/
def ProducerPc.pumps : ProducerPc → Bool
  | .reading | .push _ _ _ => true
  | _ => false

/-- The end of the stream has been seen. -/
def State.ending (s : State) : Bool := s.isStreamDone || s.producer.publishing

/-- The law of all tracks. A track without a group delivers nothing. -/
structure Flows (cfg : Config) (s : State) : Prop where
  seeker : s.seeker = .idle
  control : s.control = .idle
  unread : s.mStarted = false → s.reads = []
  absent : ∀ t, s.group t = none → s.delivered t = [] ∧ s.held t = [] ∧
    (s.reader t = .idle ∨ s.reader t = .returned .errorIo)
  lane : ∀ t g, s.group t = some g →
    Lane cfg t s.reads s.producer (s.reader t) (s.held t) (s.delivered t) g
  done : ∀ t g, s.group t = some g → g.mIsStreamDone = true → s.ending = true
  ending : s.ending = true → s.reads.any ReadResult.ends = true ∧ s.producer.pumps = false

theorem flows_initial (cfg : Config) : Flows cfg initial := by
  constructor <;> simp [initial, State.ending, ProducerPc.publishing]

theorem ProducerPc.inHand_of_not_pumps {pc : ProducerPc} (h : pc.pumps = false) (t : Track) :
    pc.inHand t = [] := by
  cases pc with
  | push => simp [pumps] at h
  | _ => rfl

/-- The law gives in-order delivery. -/
theorem Flows.delivers {cfg : Config} {s : State} (h : Flows cfg s) : Delivers cfg s := by
  refine ⟨fun t => ?_, fun t g hGroup => (h.lane t g hGroup).intact, fun t hEnd => ?_⟩
  · cases hGroup : s.group t with
    | none =>
        rw [(h.absent t hGroup).1]
        exact List.nil_prefix
    | some g =>
        rw [(h.lane t g hGroup).whole, List.append_assoc]
        exact List.prefix_append _ _
  · cases hGroup : s.group t with
    | none =>
        have hReader := (h.absent t hGroup).2.2
        simp [hEnd] at hReader
    | some g =>
        obtain ⟨hDone, hFrames⟩ := (h.lane t g hGroup).ended hEnd
        obtain ⟨hRead, hPumps⟩ := h.ending (h.done t g hGroup hDone)
        have hWhole := (h.lane t g hGroup).whole
        rw [hFrames, ProducerPc.inHand_of_not_pumps hPumps] at hWhole
        exact ⟨hRead, by simpa using hWhole.symm⟩

section Steps

variable {cfg : Config} {s s' : State}

/-- Steps that leave the requests alone; only the lanes are left to check. -/
theorem Flows.quiet (h : Flows cfg s) (hQuiet : Quiet s s')
    (hPublishing : s'.producer.publishing = s.producer.publishing)
    (hPumps : s'.producer.pumps = true → s.producer.pumps = true)
    (hAbsent : ∀ t, s.group t = none → s'.delivered t = s.delivered t ∧ s'.held t = s.held t ∧
      (s'.reader t = s.reader t ∨ s'.reader t = .returned .errorIo))
    (hLane : ∀ t g, s'.group t = some g →
      Lane cfg t s.reads s'.producer (s'.reader t) (s'.held t) (s'.delivered t) g) :
    Flows cfg s' := by
  have hEnding : s'.ending = s.ending := by
    rw [State.ending, hQuiet.isStreamDone, hPublishing, State.ending]
  refine ⟨hQuiet.seeker.trans h.seeker, hQuiet.control.trans h.control, ?_, ?_, ?_, ?_, ?_⟩
  · rw [hQuiet.mStarted, hQuiet.reads]
    exact h.unread
  · intro t hNone
    have hBefore : s.group t = none := by
      have hSome := hQuiet.isSome t
      rw [hNone] at hSome
      simpa using hSome.symm
    have hOld := h.absent t hBefore
    have hNew := hAbsent t hBefore
    grind
  · rw [hQuiet.reads]
    exact hLane
  · intro t g' hGroup hDone
    obtain ⟨g, hOld, hFlags⟩ := hQuiet.of_group hGroup
    rw [hEnding]
    exact h.done t g hOld ((congrArg Prod.fst hFlags).trans hDone)
  · rw [hEnding, hQuiet.reads]
    intro hEnd
    obtain ⟨hRead, hIdle⟩ := h.ending hEnd
    exact ⟨hRead, by grind⟩

/-- A producer that has nothing in hand moves on and takes nothing in hand. -/
theorem Flows.moveTo (h : Flows cfg s) {pc : ProducerPc}
    (hBefore : ∀ t p next, s.producer ≠ .push t p next) (hPush : ∀ t p next, pc ≠ .push t p next)
    (hPublishing : pc.publishing = s.producer.publishing)
    (hPumps : pc.pumps = true → s.ending = false) : Flows cfg { s with producer := pc } := by
  have hHand : ∀ t, s.producer.inHand t = [] := by
    intro t
    cases hPc : s.producer with
    | push u p next => exact absurd hPc (hBefore u p next)
    | _ => rfl
  have hEnding : State.ending { s with producer := pc } = s.ending := by
    simp only [State.ending, hPublishing]
  refine ⟨h.seeker, h.control, h.unread, h.absent,
    fun t g hGroup => (h.lane t g hGroup).leave (hHand t) hPush, ?_, ?_⟩
  · rw [hEnding]
    exact h.done
  · rw [hEnding]
    intro hEnd
    refine ⟨(h.ending hEnd).1, ?_⟩
    by_contra hPump
    simp [hPumps (by simpa using hPump)] at hEnd

theorem flows_push {t : Track} {g : PPMediaBufferGroup} {p : Payload} {pc : PushPc}
    (h : Flows cfg s) (hPc : s.producer = .push t p pc) (hGroup : s.group t = some g)
    (hStep : pushStep s t g p pc = some s') : Flows cfg s' := by
  obtain ⟨hQuiet, hNext⟩ := pushStep_quiet hStep
  have hLane := h.lane t g hGroup
  rw [hPc] at hLane
  have hOther : ∀ u, t ≠ u → ∀ g', s.group u = some g' →
      Lane cfg u s.reads s'.producer (s.reader u) (s.held u) (s.delivered u) g' := by
    intro u hDifferent g' hThere
    have hBefore := h.lane u g' hThere
    rw [hPc] at hBefore
    exact hBefore.other hDifferent hNext
  have hPublishing : s'.producer.publishing = s.producer.publishing := by
    rw [hPc]
    rcases hNext with hNext | ⟨next, hNext⟩ <;> rw [hNext] <;> rfl
  have hPumps : s.producer.pumps = true := by
    rw [hPc]
    rfl
  have hNotEnded : s.reader t ≠ .returned .endOfStream := by
    intro hEnd
    have hIdle := (h.ending (h.done t g hGroup (hLane.ended hEnd).1)).2
    simp [hPumps] at hIdle
  rcases pushStep_lane hLane hStep with ⟨next, rfl, hMoved⟩ | ⟨addr, rfl, rfl⟩
  · refine h.quiet hQuiet hPublishing (fun _ => hPumps) (fun _ _ => ⟨rfl, rfl, Or.inl rfl⟩) ?_
    intro u g' hThere
    by_cases hHere : t = u
    · subst hHere
      obtain rfl := Option.some.inj (hGroup.symm.trans hThere)
      exact hMoved
    · exact hOther u hHere g' hThere
  · refine h.quiet hQuiet hPublishing (fun _ => hPumps) (fun _ _ => ⟨rfl, rfl, Or.inl rfl⟩) ?_
    intro u g' hThere
    rw [State.onGroup_group] at hThere
    split_ifs at hThere with hHere
    · subst hHere
      obtain rfl : g.store p addr = g' := by simpa [hGroup] using hThere
      exact hLane.store hNotEnded
    · exact hOther u (fun hSame => hHere hSame.symm) g' hThere

/-- The end of the stream is published to a group. -/
theorem flows_publish {t : Track} {pc : ProducerPc} (h : Flows cfg s) (hPc : s.producer = .publish t)
    (hNext : pc.publishing = true) :
    Flows cfg { s.onGroup t (·.notifyStreamdone) with producer := pc } := by
  have hPush : ∀ u p next, pc ≠ .push u p next := by
    rintro u p next rfl
    simp [ProducerPc.publishing] at hNext
  have hHand : ∀ u, s.producer.inHand u = [] := by simp [hPc, ProducerPc.inHand]
  have hEnding := h.ending (by simp [State.ending, hPc, ProducerPc.publishing])
  have hStill : State.ending { s.onGroup t (·.notifyStreamdone) with producer := pc } = true := by
    simp [State.ending, hNext]
  refine ⟨h.seeker, h.control, h.unread, ?_, ?_, fun _ _ _ _ => hStill, fun _ => ⟨hEnding.1, ?_⟩⟩
  · intro u hNone
    refine h.absent u ?_
    rw [State.onGroup_group] at hNone
    split_ifs at hNone with hHere
    · simpa [hHere] using hNone
    · exact hNone
  · intro u g' hGroup
    rw [State.onGroup_group] at hGroup
    split_ifs at hGroup with hHere
    · subst hHere
      obtain ⟨g, hOld, rfl⟩ := Option.map_eq_some_iff.mp hGroup
      exact ((h.lane u g hOld).relabel false true fun _ => rfl).leave (hHand u) hPush
    · exact (h.lane u g' hGroup).leave (hHand u) hPush
  · cases pc with
    | push u p next => exact absurd rfl (hPush u p next)
    | reading => simp [ProducerPc.publishing] at hNext
    | _ => rfl

theorem flows_producer (hCoherent : Coherent s) (h : Flows cfg s)
    (hStep : producerStep cfg s = some s') : Flows cfg s' := by
  have hLock : s.producer.holdsLock = false := by
    by_contra hHolds
    have hAsleep := hCoherent.exclusive (by simpa using hHolds)
    simp [h.seeker] at hAsleep
  have hStarted := hCoherent.running
  have hStopped := hCoherent.stopped
  cases produces_of_step hStep with
  | push hPc hGroup hPush =>
      exact flows_push h hPc hGroup hPush
  | seekBranch hPc | seekEndVideo hPc | seekEndAudio hPc | seekEndFlag hPc | seekBox hPc
  | seekClear hPc hFree | seekDone hPc hFree | seekFinish hPc =>
      simp [hPc, ProducerPc.holdsLock] at hLock
  | seekLock hPc hFree =>
      have hPending := hCoherent.pending
      simp [hCoherent.seekLock hPc, h.seeker, SeekerPc.pending] at hPending
  | exiting hPc =>
      cases hFlag : s.mStarted with
      | true => simp [hPc, ProducerPc.left] at hStarted; simp [hStarted] at hFlag
      | false => simpa [hPc] using (hStopped hFlag h.control).1
  | publishVideo hPc | publishAudio hPc =>
      exact flows_publish h hPc rfl
  | publishFlag hPc =>
      have hEnding := h.ending (by simp [State.ending, hPc, ProducerPc.publishing])
      refine ⟨h.seeker, h.control, h.unread, h.absent, ?_, fun _ _ _ _ => rfl, fun _ => ⟨hEnding.1, rfl⟩⟩
      exact fun t g hGroup => (h.lane t g hGroup).leave (by rw [hPc]; rfl) (by simp)
  | pushError hPc hGroup hPush =>
      rcases pushErrorStep_cases hPush with rfl | rfl <;>
        exact h.moveTo (by simp [hPc]) (by simp) (by rw [hPc]; rfl) (by simp [ProducerPc.pumps])
  | loopTest hPc | seekTest hPc | doneTest hPc =>
      refine h.moveTo (by simp [hPc]) ?_ ?_ ?_ <;> split_ifs <;>
        simp_all [ProducerPc.publishing, ProducerPc.pumps, State.ending]

theorem flows_readSample {result : ReadResult} {fuel : Nat} (hCoherent : Coherent s)
    (h : Flows cfg s) (hPromised : Promised cfg s (.readSample result fuel))
    (hStep : readSampleStep cfg s result fuel = some s') : Flows cfg s' := by
  obtain ⟨hPc, pc, hHandled, rfl⟩ := readSampleStep_cases hStep
  obtain ⟨hNext, hHand⟩ := handleRead_inHand hPromised hHandled
  have hOngoing : s.ending = false := by
    by_contra hEnd
    simpa [hPc, ProducerPc.pumps] using (h.ending (by simpa using hEnd)).2
  refine ⟨h.seeker, h.control, fun hStopped => ?_, h.absent, fun t g hGroup => ?_,
    fun t g hGroup hDone => ?_, fun hEnd => ?_⟩
  · simpa [hPc] using (hCoherent.stopped hStopped h.control).1
  · have hLane := h.lane t g hGroup
    rw [hPc] at hLane
    refine hLane.read (hHand t (Option.isSome_iff_exists.mpr ⟨g, hGroup⟩)) ?_
    rcases hNext with rfl | ⟨rfl, _⟩ | hPush
    · exact Or.inl (by simp)
    · exact Or.inl (by simp)
    · exact Or.inr hPush
  · simp [h.done t g hGroup hDone] at hOngoing
  · simp only [State.ending, Bool.or_eq_false_iff] at hOngoing
    simp only [State.ending, hOngoing.1, Bool.false_or] at hEnd
    rcases hNext with rfl | ⟨rfl, hEnds⟩ | ⟨t, p, rfl⟩
    · simp [ProducerPc.publishing] at hEnd
    · exact ⟨by simp [hEnds], rfl⟩
    · simp [ProducerPc.publishing] at hEnd

theorem flows_start (hCoherent : Coherent s) (h : Flows cfg s)
    (hStep : startStep cfg s = some s') : Flows cfg s' := by
  rcases startStep_cases hStep with rfl | ⟨hStopped, _, _, rfl⟩
  · exact h
  · have hReads := h.unread hStopped
    have hNone := (hCoherent.stopped hStopped h.control).2
    have hOngoing : s.isStreamDone = false := by
      by_contra hDone
      have hEnd := (h.ending (by simp [State.ending, hDone])).1
      simp [hReads] at hEnd
    refine ⟨h.seeker, h.control, by simp, fun t _ => h.absent t (hNone t), fun t g hGroup => ?_,
      fun t g hGroup hDone => ?_, ?_⟩
    · simp only [hNone] at hGroup
      split_ifs at hGroup
      obtain rfl := Option.some.inj hGroup
      obtain ⟨hDelivered, hHeld, hReader⟩ := h.absent t (hNone t)
      rw [hReads, hDelivered, hHeld]
      exact Lane.new cfg rfl hReader
    · simp only [hNone] at hGroup
      split_ifs at hGroup
      obtain rfl := Option.some.inj hGroup
      cases t <;> simp [newGroup, PPMediaBufferGroup.new] at hDone
    · simp [State.ending, hOngoing, ProducerPc.publishing]

/-- A step of a consumer touches one track only, and may signal the producer. -/
theorem Flows.onTrack (h : Flows cfg s) (hQuiet : Quiet s s') {t : Track}
    {g g' : PPMediaBufferGroup}
    (hProducer : s'.producer = s.producer ∨ s'.producer = s.producer.signal t)
    (hGroup : s.group t = some g) (hAfter : s'.group t = some g')
    (hOther : ∀ u, u ≠ t → s'.group u = s.group u ∧ s'.reader u = s.reader u ∧
      s'.held u = s.held u ∧ s'.delivered u = s.delivered u)
    (hLane : Lane cfg t s.reads s'.producer (s'.reader t) (s'.held t) (s'.delivered t) g') :
    Flows cfg s' := by
  have hSignal := signal_cases s.producer t
  refine h.quiet hQuiet ?_ ?_ ?_ ?_
  · grind [ProducerPc.publishing]
  · grind [ProducerPc.pumps]
  · intro u hNone
    have hDifferent : u ≠ t := by
      rintro rfl
      simp [hGroup] at hNone
    obtain ⟨_, hReader, hHeld, hDelivered⟩ := hOther u hDifferent
    exact ⟨hDelivered, hHeld, Or.inl hReader⟩
  · intro u old hThere
    by_cases hHere : u = t
    · subst hHere
      obtain rfl := Option.some.inj (hAfter.symm.trans hThere)
      exact hLane
    · obtain ⟨hSame, hReader, hHeld, hDelivered⟩ := hOther u hHere
      have hBefore := h.lane u old (hSame ▸ hThere)
      rw [hReader, hHeld, hDelivered]
      rcases hProducer with hProducer | hProducer
      · rwa [hProducer]
      · rw [hProducer]
        exact hBefore.signal t

/-- A step of a reader that moves only its own place. -/
theorem Flows.setReader (h : Flows cfg s) {t : Track} {g : PPMediaBufferGroup} {pc : ReaderPc}
    (hGroup : s.group t = some g)
    (hLane : Lane cfg t s.reads s.producer pc (s.held t) (s.delivered t) g) :
    Flows cfg (s.setReader t pc) := by
  refine h.onTrack ⟨⟨rfl, rfl, rfl, rfl, rfl, rfl, rfl, rfl, rfl, fun _ => rfl⟩, rfl, rfl⟩ (Or.inl rfl)
    hGroup hGroup (fun u hOther => ?_) ?_
  · simp [State.setReader, hOther]
  · simpa [State.setReader] using hLane

theorem flows_read {t : Track} (h : Flows cfg s) (hHeld : s.held t = [])
    (hStep : readStep s t = some s') : Flows cfg s' := by
  have hGoes : (s.reader t).active = false ∧
      s' = s.setReader t (if (s.group t).isSome then .enter else .returned .errorIo) := by
    unfold readStep at hStep
    cases hReader : s.reader t <;>
      simp_all [ReaderPc.active]
  obtain ⟨_, rfl⟩ := hGoes
  cases hGroup : s.group t with
  | some g =>
      refine h.setReader hGroup ((h.lane t g hGroup).setReader (fun _ => hHeld) ?_ ?_ ?_) <;>
        simp [ReaderPc.holdsGroup]
  | none =>
      refine h.quiet ⟨⟨rfl, rfl, rfl, rfl, rfl, rfl, rfl, rfl, rfl, fun _ => rfl⟩, rfl, rfl⟩ rfl id ?_ ?_
      · intro u _
        by_cases hHere : u = t <;> simp [State.setReader, hHere]
      · intro u g' hThere
        have hOther : u ≠ t := by
          rintro rfl
          simp [State.setReader, hGroup] at hThere
        simpa [State.setReader, hOther] using h.lane u g' hThere

theorem flows_pop {t : Track} {g : PPMediaBufferGroup} (h : Flows cfg s)
    (hGroup : s.group t = some g) (hStep : popStep s t g = some s') : Flows cfg s' := by
  have hLane := h.lane t g hGroup
  obtain ⟨hQuiet, _⟩ := popStep_quiet hStep
  -- Inside the function nothing is held, and the lock is kept from test to test.
  have hGoto : (s.reader t).active = true → (s.reader t).holdsGroup = true → ∀ {pc},
      (pc = .doneTest → g.frames = []) →
      (pc = .returned .endOfStream → g.mIsStreamDone = true ∧ g.frames = []) →
      Flows cfg (s.setReader t pc) := fun hActive hHolds _ hDrained hEnded =>
    h.setReader hGroup (hLane.setReader (fun _ => hLane.released hActive) (fun _ _ => hHolds)
      hDrained hEnded)
  unfold popStep at hStep
  cases hReader : s.reader t with
  | idle | returned | dangling => simp [hReader] at hStep
  | enter | asleep =>
      simp only [hReader] at hStep
      split_ifs at hStep with hHolds
      obtain rfl := Option.some.inj hStep
      refine h.setReader hGroup (hLane.setReader (fun _ => hLane.released (by rw [hReader]; rfl))
        (fun _ hPc => absurd hPc hHolds) (by simp) (by simp))
  | whileTest =>
      simp only [hReader] at hStep
      split_ifs at hStep <;>
      · obtain rfl := Option.some.inj hStep
        exact hGoto (by rw [hReader]; rfl) (by rw [hReader]; rfl) (by simp) (by simp)
  | stopTest =>
      simp only [hReader, hLane.calm.2, Bool.false_eq_true, if_false, Option.some.injEq] at hStep
      subst hStep
      exact hGoto (by rw [hReader]; rfl) (by rw [hReader]; rfl) (by simp) (by simp)
  | headTest =>
      simp only [hReader] at hStep
      cases hFrames : g.frames with
      | nil =>
          simp only [hFrames, Option.some.injEq] at hStep
          subst hStep
          exact hGoto (by rw [hReader]; rfl) (by rw [hReader]; rfl) (fun _ => hFrames) (by simp)
      | cons b rest =>
          simp only [hFrames, Option.some.injEq] at hStep
          subst hStep
          rw [hReader] at hLane
          refine h.onTrack hQuiet (Or.inl rfl) hGroup (show _ = some (g.takeFirst true rest) from ?_)
            (fun u hOther => ?_) ?_
          · simp [State.setReader, State.onGroup, hGroup]
          · simp [State.setReader, State.onGroup, hOther]
          · simpa [State.setReader, State.onGroup] using hLane.pop hFrames
  | doneTest =>
      have hFrames := hLane.drained hReader
      simp only [hReader] at hStep
      split_ifs at hStep with hDone
      · obtain rfl := Option.some.inj hStep
        exact hGoto (by rw [hReader]; rfl) (by rw [hReader]; rfl) (by simp) fun _ => ⟨hDone, hFrames⟩
      · obtain rfl := Option.some.inj hStep
        exact hGoto (by rw [hReader]; rfl) (by rw [hReader]; rfl) (by simp) (by simp)
  | rearm =>
      simp only [hReader, Option.some.injEq] at hStep
      subst hStep
      have hMoved : Lane cfg t s.reads s.producer .whileTest (s.held t) (s.delivered t) g :=
        hLane.setReader (fun _ => hLane.released (by rw [hReader]; rfl))
          (fun _ _ => by rw [hReader]; rfl) (by simp) (by simp)
      refine h.onTrack hQuiet (Or.inl rfl) hGroup
        (show _ = some { g with mStartBuffering := true } from ?_) (fun u hOther => ?_) ?_
      · simp [State.setReader, State.onGroup, hGroup]
      · simp [State.setReader, State.onGroup, hOther]
      · simpa [State.setReader, State.onGroup] using hMoved.relabel true g.mIsStreamDone id

/-- There is at most one frame to release, and the ring takes it back. -/
theorem flows_release {t : Track} {index : Nat} (h : Flows cfg s)
    (hKeeps : KeepsComparison s (.release t index))
    (hStep : liveStep cfg s (.release t index) = some s') : Flows cfg s' := by
  obtain ⟨hQuiet, _⟩ := quiet_of_consumer (by simp) hStep
  obtain ⟨b, hHeld, rfl⟩ := Option.map_eq_some_iff.mp hStep
  cases hGroup : s.group t with
  | none => simp [(h.absent t hGroup).2.1] at hHeld
  | some g =>
      have hLane := h.lane t g hGroup
      obtain ⟨hOne, rfl⟩ : s.held t = [b] ∧ index = 0 := by
        have hSingle := hLane.single
        match hList : s.held t with
        | [] => simp [hList] at hHeld
        | [only] => cases index <;> simp_all
        | _ :: _ :: _ => simp [hList] at hSingle
      have hComparing := hKeeps g hGroup b hHeld
      rw [hOne] at hLane
      refine h.onTrack hQuiet (Or.inr rfl) hGroup
        (show _ = some (g.signalBufferReturned b) from ?_) (fun u hOther => ?_) ?_
      · simp [State.onGroup, hGroup]
      · simp [State.onGroup, hOther]
      · simpa [State.onGroup, hOne] using (hLane.release hComparing).signal t

theorem flows_step {act : Act} (hCoherent : Coherent s) (h : Flows cfg s)
    (hGuard : DeliveryGuard cfg s act) (hStep : step cfg s act = some s') : Flows cfg s' := by
  unfold step at hStep
  split_ifs at hStep
  cases act with
  | producer => exact flows_producer hCoherent h hStep
  | readSample result fuel => exact flows_readSample hCoherent h hGuard.1 hStep
  | spuriousWake =>
      obtain ⟨hQuiet, _⟩ := quiet_of_consumer (by simp) hStep
      simp only [liveStep] at hStep
      split at hStep
      case h_2 => simp at hStep
      case h_1 t p signalled hPc =>
        obtain rfl := Option.some.inj hStep
        refine h.quiet hQuiet (by rw [hPc]; rfl) (fun _ => by rw [hPc]; rfl)
          (fun _ _ => ⟨rfl, rfl, Or.inl rfl⟩) fun u g hGroup => ?_
        have hLane := h.lane u g hGroup
        rw [hPc] at hLane
        exact hLane.move rfl (by simp [ProducerPc.holdsGroup, PushPc.holdsGroup]) hLane.found
  | seekTo | stop => exact absurd hGuard.1 id
  | seeker => simp [liveStep, seekerStep, h.seeker] at hStep
  | start => exact flows_start hCoherent h hStep
  | control => simp [liveStep, controlStep, h.control] at hStep
  | read t => exact flows_read h hGuard.1 hStep
  | reader t =>
      simp only [liveStep, readerStep] at hStep
      cases hGroup : s.group t with
      | some g =>
          simp only [hGroup] at hStep
          exact flows_pop h hGroup hStep
      | none =>
          rcases (h.absent t hGroup).2.2 with hReader | hReader <;>
            simp [hGroup, hReader] at hStep
  | release t index => exact flows_release h hGuard.2 hStep
  | releaseOrphan t index =>
      simp only [liveStep] at hStep
      split_ifs at hStep
      obtain rfl := Option.some.inj hStep
      exact ⟨h.seeker, h.control, h.unread, h.absent, h.lane, h.done, h.ending⟩

end Steps

section Runs

variable {cfg : Config} {acts : List Act} {s : State}

theorem run_flows (run : Run (step cfg) (DeliveryGuard cfg) initial acts s) : Flows cfg s :=
  run.invariant_of (fun _ _ prior => run_coherent prior) (flows_initial cfg)
    fun _ _ _ hCoherent h hGuard hStep => flows_step hCoherent h hGuard hStep

/-- As long as no release falls between the two comparisons in the wrong way, in
every run the frames are delivered in order, complete and unchanged. -/
theorem run_delivers (run : Run (step cfg) (DeliveryGuard cfg) initial acts s) : Delivers cfg s :=
  (run_flows run).delivers

/-- A key frame is read, stored and delivered, and then the end is reported. -/
theorem run_delivers_keyFrame : ∃ acts s,
    Run (step twoTracks) (DeliveryGuard twoTracks) initial acts s ∧
      (s.reader .video = .returned .endOfStream ∧
        s.delivered .video = [⟨[0, 0, 0, 1, 101], 40, true, 0⟩]) ∧ Delivers twoTracks s := by
  obtain ⟨s, run, hEnd⟩ := Run.exists_of_execGuarded
    (fun s => s.reader .video = .returned .endOfStream ∧
      s.delivered .video = [⟨[0, 0, 0, 1, 101], 40, true, 0⟩])
    (show (execGuarded (step twoTracks) (DeliveryGuard twoTracks) initial
      ([Act.start] ++ List.replicate 3 Act.producer ++ [Act.readSample (.sample keyFrame) 2] ++
        List.replicate 7 Act.producer ++ [Act.readSample .streamEnd 0] ++ List.replicate 3 Act.producer ++
        [Act.read .video] ++ List.replicate 4 (Act.reader .video) ++ [Act.release .video 0, Act.read .video] ++
        List.replicate 5 (Act.reader .video))).any _ = true by decide)
  exact ⟨_, s, run, hEnd, run_delivers run⟩

/-- A video sample of one unit of `65536 * k` bytes. -/
def oneUnit (k : UInt8) : Sample where
  buffer := fun i => [0, k, 0, 0].getD i 0
  bufferLength := 4 + k.toNat * 65536
  fits := by
    have hByte := k.toNat_lt
    omega
  streamIndex := 0
  startTime := 0
  isSync := true

theorem field_oneUnit (k : UInt8) :
    field twoTracks (oneUnit k).buffer 0 = k.toNat * 65536 := by
  simp [field, twoTracks, oneUnit, Memory.read, bigEndian, List.range_succ]
  omega

theorem acceptable_oneUnit (k : UInt8) : (oneUnit k).acceptable twoTracks = true := by
  have hTrack : twoTracks.trackOf (oneUnit k).streamIndex = some .video := rfl
  have hFormed : (oneUnit k).wellFormed twoTracks = true := by
    refine tiles_oneUnit (by decide) ?_
    rw [field_oneUnit]
    rfl
  simp only [Sample.acceptable, hTrack, hFormed, Bool.and_true]
  decide

theorem converted_oneUnit (k : UInt8) (hPositive : 0 < k.toNat) :
    ∃ dst, dst.length = 4 + k.toNat * 65536 ∧
      constructNalus twoTracks (oneUnit k).buffer (oneUnit k).bufferLength 2 =
        some (.written dst) := by
  have hField := field_oneUnit k
  have hByte := k.toNat_lt
  refine ⟨_, ?_, constructNalus_oneUnit (by decide) ?_ ?_ ?_ ?_⟩
  · rw [List.length_append, Memory.read_length, hField, List.length_cons, List.length_cons,
      List.length_cons, List.length_singleton]
  · simp only [oneUnit]
    omega
  · omega
  · rw [hField]
    rfl
  · rfl

/-- The actions of a straight run meet the guard in every state. -/
theorem deliveryGuard_straight (sample : Sample) (hAcceptable : sample.acceptable twoTracks = true)
    (fuel count : Nat) (state : State) :
    ∀ act ∈ List.replicate 3 Act.producer ++ [Act.readSample (.sample sample) fuel] ++
      List.replicate count Act.producer, DeliveryGuard twoTracks state act := by
  intro act hMem
  simp only [List.mem_append, List.mem_replicate, List.mem_singleton] at hMem
  rcases hMem with (⟨_, rfl⟩ | rfl) | ⟨_, rfl⟩
  · exact ⟨trivial, trivial⟩
  · exact ⟨hAcceptable, trivial⟩
  · exact ⟨trivial, trivial⟩

/-- A frame is read while the producer stands at the top of its loop. -/
theorem run_readAndHold {g : PPMediaBufferGroup} {b : MediaBuffer} {rest : List MediaBuffer}
    (h : Resting s g []) (hOpen : g.mStartBuffering = false) (hFrames : g.frames = b :: rest) :
    ∃ acts s', Run (step cfg) (DeliveryGuard cfg) s acts s' ∧
      Resting s' (g.takeFirst true rest) [b] := by
  obtain ⟨s', run, hNext⟩ := @Resting.pop cfg s g [] h b rest hOpen hFrames
  have hRead : DeliveryGuard cfg s (.read .video) := ⟨h.held, trivial⟩
  refine ⟨_, s', Run.cons hRead h.step_read (run.strengthen fun state act hMem => ?_), hNext⟩
  obtain ⟨_, rfl⟩ := List.mem_replicate.mp hMem
  exact ⟨trivial, trivial⟩

/-- A long frame has been delivered and released. -/
theorem run_firstReleased : ∃ acts s g,
    Run (step twoTracks) (DeliveryGuard twoTracks) initial acts s ∧ Resting s g [] ∧
      g.frames = [] ∧ g.mPlayBufferingCount = 1 ∧ g.mSize = 6291456 ∧
      g.mReadingAddr = 4194309 ∧ g.mWritingAddr = 4194310 := by
  obtain ⟨s₀, hStart, h₀⟩ : ∃ s, step twoTracks initial .start = some s ∧
      Resting s (newGroup .video) [] :=
    ⟨_, rfl, ⟨rfl, rfl, rfl⟩, rfl, rfl, rfl, rfl, rfl, rfl⟩
  obtain ⟨dst, hLength, hConverted⟩ := converted_oneUnit 64 (by decide)
  replace hLength : dst.length = 4194308 := hLength
  obtain ⟨p, s₁, rfl, store, h₁⟩ := h₀.storeEnd rfl hConverted (by grind)
    (by simp [newGroup, PPMediaBufferGroup.new, hLength]) (by decide)
    (by simp [newGroup, PPMediaBufferGroup.new, hLength])
  obtain ⟨_, s₂, hold, h₂⟩ := @run_readAndHold twoTracks s₁ _ _ _ h₁ rfl rfl
  obtain ⟨s₃, hRelease, h₃⟩ := @Resting.release twoTracks _ _ _ h₂
  have hFirst : DeliveryGuard twoTracks initial .start := ⟨trivial, trivial⟩
  have hLast : DeliveryGuard twoTracks s₂ (.release .video 0) :=
    ⟨trivial, by simp [KeepsComparison, h₂.pc, ProducerPc.comparing]⟩
  have first := Run.cons hFirst hStart
    (store.strengthen (deliveryGuard_straight _ (acceptable_oneUnit 64) 2 4))
  refine ⟨_, s₃, _, (first.trans hold).snoc hLast hRelease, h₃, rfl, rfl, rfl, ?_, ?_⟩
  · simp [PPMediaBufferGroup.signalBufferReturned, PPMediaBufferGroup.frameAt, newGroup,
      PPMediaBufferGroup.new, hLength]
  · simp [PPMediaBufferGroup.signalBufferReturned, PPMediaBufferGroup.takeFirst,
      PPMediaBufferGroup.store, newGroup, PPMediaBufferGroup.new, hLength]

/-- A second long frame lies before the first and is still held: the writing
address is below the reading address. -/
theorem run_wrapped : ∃ acts s g b,
    Run (step twoTracks) (DeliveryGuard twoTracks) initial acts s ∧ Resting s g [b] ∧
      g.frames = [] ∧ g.mSize = 6291456 ∧ g.mReadingAddr = 4194309 ∧
      g.mWritingAddr = 3145733 ∧ b.data + b.size = 3145732 := by
  obtain ⟨_, s, g, toFirst, h, hFrames, hCount, hSize, hReading, hWriting⟩ := run_firstReleased
  obtain ⟨dst, hLength, hConverted⟩ := converted_oneUnit 48 (by decide)
  replace hLength : dst.length = 3145732 := hLength
  obtain ⟨p, s₁, rfl, store, h₁⟩ := @Resting.storeFront twoTracks _ _ _ _ _ _ h rfl hConverted
    (by grind) (by omega) (by omega) (by omega) (by omega)
  have hOpen : (g.store p 0).mStartBuffering = false := by
    simp [PPMediaBufferGroup.store, hCount]
  have hStored : (g.store p 0).frames = [PPMediaBufferGroup.frameAt p 0] := by
    simp [PPMediaBufferGroup.store, hFrames]
  obtain ⟨_, s₂, hold, h₂⟩ := @run_readAndHold twoTracks s₁ _ _ _ h₁ hOpen hStored
  refine ⟨_, s₂, _, _, (toFirst.trans (store.strengthen
    (deliveryGuard_straight _ (acceptable_oneUnit 48) 2 5))).trans hold, h₂, rfl, hSize, hReading, ?_, ?_⟩
  · simp [PPMediaBufferGroup.takeFirst, PPMediaBufferGroup.store, hLength]
  · simp [PPMediaBufferGroup.frameAt, hLength]

/-- The callers keep all promises, and the release of the second long frame falls
between the two comparisons for the key frame, which is lost. The reader is then
told the end of the stream without it. -/
theorem exists_run_not_delivers : ∃ acts s,
    Run (step twoTracks) (Promised twoTracks) initial acts s ∧ ¬ Delivers twoTracks s := by
  obtain ⟨_, s, g, b, toWrapped, h, hFrames, hSize, hReading, hWriting, hEnd⟩ := run_wrapped
  have hKeyFrame : constructNalus twoTracks keyFrame.buffer keyFrame.bufferLength 2 =
      some (.written [0, 0, 0, 1, 101]) := by decide
  obtain ⟨p, x, y, hData, toCompare, hPc, hGroup, lose, hLost, hReads, hDelivered⟩ :=
    h.lose rfl hKeyFrame (by simp) (by simp [hSize]) rfl (by omega) (by omega)
  obtain ⟨z, toEnd, hReturned, hLast, hSame⟩ := @Resting.toEnd twoTracks _ _ _ hLost hFrames
  have before : Run (step twoTracks) (DeliveryGuard twoTracks) initial _ x :=
    toWrapped.trans (toCompare.strengthen (deliveryGuard_straight _ (by decide) 2 3))
  have hCall : Promised twoTracks y (.read .video) := hLost.held
  have run := (before.mono fun _ _ => And.left).trans
    ((lose.strengthen (by simp [Promised])).trans (Run.cons hCall hLost.step_read
      (toEnd.strengthen (by simp [Promised, or_imp, forall_and]))))
  refine ⟨_, z, run, fun hDelivers => ?_⟩
  have hWhole := ((run_flows before).lane .video g hGroup).whole
  have hAll := (hDelivers.ended .video hReturned).2
  rw [hLast, hSame, hReads, hDelivered, wanted_snoc, hWhole, hPc, hFrames] at hAll
  have hCount := congrArg List.length hAll
  simp [ProducerPc.inHand, hData, newGroup, PPMediaBufferGroup.new] at hCount

end Runs

end Meet.PPExtractor
