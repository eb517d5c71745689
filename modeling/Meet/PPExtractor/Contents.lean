import Meet.PPExtractor.Delivery
import Meet.PPExtractor.Fresh

/-! What the frames say. Each frame in a group or with its reader reads as the sample that it
was made of, through seeks and stops. For this the callers give the frames of a track back in
the order in which they got them, and hold none when a seek empties the ring. -/
namespace Meet.PPExtractor

/-- What the producer pushes for a sample: a video sample is converted, an audio sample is
copied. -/
def Sample.ConvertsTo (cfg : Config) (sample : Sample) (data : List UInt8) : Track → Prop
  | .video =>
      ∃ fuel, constructNalus cfg sample.buffer sample.bufferLength fuel = some (.written data)
  | .audio => data = sample.buffer.read 0 sample.bufferLength

/-- The result number `origin` is this sample, of a track and with a time and a sync flag. -/
structure ReadAs (cfg : Config) (reads : List ReadResult) (t : Track) (origin : Nat) (time : Int)
    (isSync : Bool) (sample : Sample) : Prop where
  read : reads[origin]? = some (.sample sample)
  track : cfg.trackOf sample.streamIndex = some t
  time : sample.startTime = time
  sync : sample.isSync = isSync

/-- A payload says what a read has returned for its track. -/
def PayloadOf (cfg : Config) (reads : List ReadResult) (t : Track) (p : Payload) : Prop :=
  ∃ sample, ReadAs cfg reads t p.origin p.frameTime p.isSync sample ∧
    sample.ConvertsTo cfg p.data t

/-- The fields of a frame say what a read has returned for its track. -/
def FrameOf (cfg : Config) (reads : List ReadResult) (t : Track) (b : MediaBuffer) : Prop :=
  ∃ sample, ReadAs cfg reads t b.origin b.kKeyTime b.kKeyIsSyncFrame sample

section Reads

variable {cfg : Config} {reads reads' : List ReadResult} {t : Track}

theorem ReadAs.mono {origin : Nat} {time : Int} {isSync : Bool} {sample : Sample}
    (h : ReadAs cfg reads t origin time isSync sample) (hReads : reads <+: reads') :
    ReadAs cfg reads' t origin time isSync sample := by
  refine ⟨?_, h.track, h.time, h.sync⟩
  obtain ⟨more, rfl⟩ := hReads
  rw [List.getElem?_append_left (List.getElem?_eq_some_iff.mp h.read).1]
  exact h.read

theorem PayloadOf.mono {p : Payload} (h : PayloadOf cfg reads t p) (hReads : reads <+: reads') :
    PayloadOf cfg reads' t p := by
  obtain ⟨sample, hRead, hData⟩ := h
  exact ⟨sample, hRead.mono hReads, hData⟩

theorem FrameOf.mono {b : MediaBuffer} (h : FrameOf cfg reads t b) (hReads : reads <+: reads') :
    FrameOf cfg reads' t b := by
  obtain ⟨sample, hRead⟩ := h
  exact ⟨sample, hRead.mono hReads⟩

theorem PayloadOf.frameOf {g : PPMediaBufferGroup} {b : MediaBuffer}
    (h : PayloadOf cfg reads t (g.view b)) : FrameOf cfg reads t b := by
  obtain ⟨sample, hRead, _⟩ := h
  exact ⟨sample, hRead⟩

/-- What the producer takes into a push is what it has just read. -/
theorem handleRead_payload {s : State} {result : ReadResult} {fuel : Nat} {p : Payload}
    {pc : PushPc} (h : handleRead cfg s fuel result = some (.push t p pc)) :
    pc = .enter ∧ PayloadOf cfg (s.reads ++ [result]) t p := by
  cases result with
  | wouldBlock | streamEnd | error => simp [handleRead] at h
  | sample sample =>
      have hRead : (s.reads ++ [.sample sample])[s.reads.length]? = some (.sample sample) := by
        simp
      simp only [handleRead] at h
      split_ifs at h with hVideo hAudio
      · obtain ⟨converted, hRun, hHandled⟩ := Option.map_eq_some_iff.mp h
        cases converted with
        | written dst =>
            obtain ⟨rfl, rfl, rfl⟩ := enterPush_eq_push hHandled
            exact ⟨rfl, sample, ⟨hRead, if_pos hVideo, rfl, rfl⟩, fuel, hRun⟩
        | error => cases hNone : s.group .video <;> simp [handleVideo, hNone] at hHandled
        | checkFailed | fault => simp [handleVideo] at hHandled
      · obtain ⟨rfl, rfl, rfl⟩ := enterPush_eq_push (Option.some.inj h)
        refine ⟨rfl, sample, ⟨hRead, ?_, rfl, rfl⟩, rfl⟩
        rw [Config.trackOf, if_neg hVideo, if_pos hAudio]
      · simp at h

end Reads

/-- What the producer knows of a group, whatever the readers do meanwhile. -/
def PushPc.Fits (g : PPMediaBufferGroup) (len : Nat) : PushPc → Prop
  | .enter => True
  | .frontTest => len + 2 ≤ g.mSize ∧ g.mReadingAddr < g.mWritingAddr
  | .store addr => RingRoom g.mSize g.mReadingAddr g.mWritingAddr len addr
  | .acquiring | .cmpAbove | .cmpBelow | .middleTest | .waiting | .asleep _ => len + 2 ≤ g.mSize

/-- The frames of a group and those held by its reader, oldest first: they lie in the ring, and
each reads as its sample. -/
structure Stored (cfg : Config) (t : Track) (reads : List ReadResult) (held : List MediaBuffer)
    (g : PPMediaBufferGroup) : Prop where
  layout : g.Layout (held ++ g.frames)
  told : ∀ b ∈ held ++ g.frames, PayloadOf cfg reads t (g.view b)

/-- The rings of two groups are the same; flags and counters may differ. -/
structure SameRing (g g' : PPMediaBufferGroup) : Prop where
  mBuffer : g'.mBuffer = g.mBuffer
  mSize : g'.mSize = g.mSize
  mReadingAddr : g'.mReadingAddr = g.mReadingAddr
  mWritingAddr : g'.mWritingAddr = g.mWritingAddr
  frames : g'.frames = g.frames

section Ring

variable {cfg : Config} {t : Track} {reads reads' : List ReadResult} {held : List MediaBuffer}
    {g g' : PPMediaBufferGroup}

theorem SameRing.refl (g : PPMediaBufferGroup) : SameRing g g := ⟨rfl, rfl, rfl, rfl, rfl⟩

theorem SameRing.fits (h : SameRing g g') {pc : PushPc} {len : Nat} (hFits : pc.Fits g len) :
    pc.Fits g' len := by
  cases pc with
  | enter => trivial
  | _ => simpa [PushPc.Fits, h.mSize, h.mReadingAddr, h.mWritingAddr] using hFits

namespace Stored

theorem new (cfg : Config) (t : Track) (reads : List ReadResult) :
    Stored cfg t reads [] (newGroup t) := by
  constructor
  · cases t <;> exact PPMediaBufferGroup.Layout.new _ (by decide)
  · simp [newGroup_frames]

theorem same (h : Stored cfg t reads held g) (hReads : reads <+: reads') (hRing : SameRing g g') :
    Stored cfg t reads' held g' := by
  refine ⟨?_, fun b hMem => ?_⟩
  · rw [PPMediaBufferGroup.Layout, hRing.mSize, hRing.mReadingAddr, hRing.mWritingAddr,
      hRing.frames]
    exact h.layout
  · rw [hRing.frames] at hMem
    rw [PPMediaBufferGroup.view, hRing.mBuffer]
    exact (h.told b hMem).mono hReads

/-- A payload is copied where there is room, over no frame in use. -/
theorem store {p : Payload} {addr : Nat} (h : Stored cfg t reads held g)
    (hRoom : RingRoom g.mSize g.mReadingAddr g.mWritingAddr p.data.length addr)
    (hPayload : PayloadOf cfg reads t p) : Stored cfg t reads held (g.store p addr) := by
  refine ⟨?_, fun b hMem => ?_⟩
  · have hLayout := h.layout.store hRoom
    rwa [List.append_assoc] at hLayout
  · have hMem : b ∈ held ++ (g.frames ++ [PPMediaBufferGroup.frameAt p addr]) := hMem
    rw [← List.append_assoc, List.mem_append, List.mem_singleton] at hMem
    rcases hMem with hOld | rfl
    · rw [PPMediaBufferGroup.view_store_of_disjoint (h.layout.store_disjoint hRoom hOld)]
      exact h.told b hOld
    · rw [PPMediaBufferGroup.view_store_frameAt]
      exact hPayload

theorem pop {b : MediaBuffer} {rest : List MediaBuffer} (h : Stored cfg t reads held g)
    (hFrames : g.frames = b :: rest) :
    Stored cfg t reads (held ++ [b]) (g.takeFirst true rest) := by
  have hSame : held ++ [b] ++ rest = held ++ g.frames := by
    rw [hFrames, List.append_assoc, List.singleton_append]
  refine ⟨?_, fun c hMem => ?_⟩
  · rw [PPMediaBufferGroup.Layout]
    exact hSame ▸ h.layout
  · exact h.told c (hSame ▸ hMem)

theorem release {b : MediaBuffer} (h : Stored cfg t reads (b :: held) g) :
    Stored cfg t reads held (g.signalBufferReturned b) :=
  ⟨h.layout.release, fun c hMem => h.told c (List.mem_cons_of_mem b hMem)⟩

theorem clear (h : Stored cfg t reads [] g) : Stored cfg t reads [] g.clearAllBuffer :=
  ⟨h.layout.clear, by simp [PPMediaBufferGroup.clearAllBuffer]⟩

/-- What the producer knows stays true when the oldest frame is given back. -/
theorem fits_release {b : MediaBuffer} {pc : PushPc} {len : Nat}
    (h : Stored cfg t reads (b :: held) g) (hFits : pc.Fits g len) :
    pc.Fits (g.signalBufferReturned b) len := by
  have hLayout : RingLayout g.mSize g.mReadingAddr g.mWritingAddr
      (b.region :: (held ++ g.frames).map MediaBuffer.region) := h.layout
  cases pc with
  | frontTest => exact ⟨hFits.1, hLayout.giveBack_below hFits.2⟩
  | store addr => exact hLayout.room_giveBack hFits
  | enter | acquiring | cmpAbove | cmpBelow | middleTest | waiting | asleep => exact hFits

end Stored

end Ring

/-- The promise of the callers: frames are given back in order, and none is out while a seek
empties its ring. -/
def ReleasesInOrder (s : State) : Act → Prop
  | .release _ index => index = 0
  | .producer => ∀ t, s.producer = .seekClear t → s.held t = []
  | _ => True

/-- All groups are in order, and so is what the producer is about to push. -/
structure Contents (cfg : Config) (s : State) : Prop where
  hand : ∀ t p pc, s.producer = .push t p pc → PayloadOf cfg s.reads t p ∧
    ∀ g, s.group t = some g → pc.Fits g p.data.length
  absent : ∀ t, s.group t = none → s.held t = []
  stored : ∀ t g, s.group t = some g → Stored cfg t s.reads (s.held t) g

theorem contents_initial (cfg : Config) : Contents cfg initial := by
  constructor <;> simp [initial]

/-- Every group after a step was one with the same ring before it. -/
def KeepsRings (s s' : State) : Prop :=
  ∀ t, (s'.group t = none → s.group t = none) ∧
    ∀ g', s'.group t = some g' → ∃ g, s.group t = some g ∧ SameRing g g'

section Steps

variable {cfg : Config} {s s' : State}

theorem KeepsRings.of_eq (h : s'.group = s.group) : KeepsRings s s' :=
  fun _ => ⟨fun hNone => h ▸ hNone, fun g' hGroup => ⟨g', h ▸ hGroup, SameRing.refl g'⟩⟩

/-- Calls that only set flags of a group. -/
theorem keepsRings_onGroup {t : Track} {f : PPMediaBufferGroup → PPMediaBufferGroup}
    (hGroup : s'.group = (s.onGroup t f).group) (hRing : ∀ g, SameRing g (f g)) :
    KeepsRings s s' := by
  intro u
  rw [hGroup, State.onGroup_group]
  split_ifs with hHere
  · subst hHere
    refine ⟨by simp, fun g' hMapped => ?_⟩
    obtain ⟨g, hOld, rfl⟩ := Option.map_eq_some_iff.mp hMapped
    exact ⟨g, hOld, hRing g⟩
  · exact ⟨id, fun g' hOld => ⟨g', hOld, SameRing.refl g'⟩⟩

/-- Steps that leave the rings alone. The producer takes nothing new in hand, and knows no
more than before. -/
theorem Contents.keep (h : Contents cfg s) (hReads : s'.reads = s.reads) (hHeld : s'.held = s.held)
    (hRings : KeepsRings s s')
    (hHand : ∀ t p pc, s'.producer = .push t p pc → ∃ pc', s.producer = .push t p pc' ∧
      ∀ g, pc'.Fits g p.data.length → pc.Fits g p.data.length) : Contents cfg s' := by
  refine ⟨fun t p pc hPush => ?_, fun t hNone => ?_, fun t g' hGroup => ?_⟩
  · obtain ⟨pc', hOld, hFits⟩ := hHand t p pc hPush
    obtain ⟨hPayload, hKnown⟩ := h.hand t p pc' hOld
    refine ⟨hReads ▸ hPayload, fun g' hGroup => ?_⟩
    obtain ⟨g, hBefore, hRing⟩ := (hRings t).2 g' hGroup
    exact hRing.fits (hFits g (hKnown g hBefore))
  · rw [hHeld]
    exact h.absent t ((hRings t).1 hNone)
  · obtain ⟨g, hBefore, hRing⟩ := (hRings t).2 g' hGroup
    rw [hHeld, hReads]
    exact (h.stored t g hBefore).same (List.prefix_refl _) hRing

/-- Steps of callers: the producer stays where it is. -/
theorem Contents.stays (h : Contents cfg s) (hReads : s'.reads = s.reads)
    (hHeld : s'.held = s.held) (hRings : KeepsRings s s') (hProducer : s'.producer = s.producer) :
    Contents cfg s' :=
  h.keep hReads hHeld hRings fun _ _ pc hPush => ⟨pc, hProducer ▸ hPush, fun _ hFits => hFits⟩

/-- The producer goes on with nothing in hand. -/
theorem Contents.leave (h : Contents cfg s) (hReads : s'.reads = s.reads)
    (hHeld : s'.held = s.held) (hRings : KeepsRings s s')
    (hPush : ∀ t p pc, s'.producer ≠ .push t p pc) : Contents cfg s' :=
  h.keep hReads hHeld hRings fun t p pc hHand => absurd hHand (hPush t p pc)

/-- A signal only wakes the producer. -/
theorem signal_fits {producer : ProducerPc} {t u : Track} {p : Payload} {pc : PushPc}
    (h : producer.signal t = .push u p pc) :
    ∃ pc', producer = .push u p pc' ∧ ∀ g, pc'.Fits g p.data.length → pc.Fits g p.data.length := by
  rcases signal_cases producer t with hSame | ⟨t', q, signalled, hBefore, hAfter⟩
  · exact ⟨pc, hSame ▸ h, fun _ hFits => hFits⟩
  · obtain ⟨rfl, rfl, rfl⟩ := ProducerPc.push.inj (hAfter.symm.trans h)
    exact ⟨_, hBefore, fun _ hFits => hFits⟩

theorem Contents.signalled (h : Contents cfg s) {t : Track} (hReads : s'.reads = s.reads)
    (hHeld : s'.held = s.held) (hRings : KeepsRings s s')
    (hSignal : s'.producer = s.producer.signal t) : Contents cfg s' :=
  h.keep hReads hHeld hRings fun _ _ _ hPush => signal_fits (hSignal ▸ hPush)

/-- A step that touches one group, with the frames of its track. -/
theorem Contents.onTrack (h : Contents cfg s) (t : Track) {g' : PPMediaBufferGroup}
    (hReads : s'.reads = s.reads) (hAfter : s'.group t = some g')
    (hOther : ∀ u, u ≠ t → s'.group u = s.group u ∧ s'.held u = s.held u)
    (hStored : Stored cfg t s.reads (s'.held t) g')
    (hHand : ∀ u p pc, s'.producer = .push u p pc → PayloadOf cfg s.reads u p ∧
      ∀ g, s'.group u = some g → pc.Fits g p.data.length) : Contents cfg s' := by
  refine ⟨fun u p pc hPush => hReads ▸ hHand u p pc hPush, fun u hNone => ?_, fun u g hGroup => ?_⟩
  · have hElse : u ≠ t := by
      rintro rfl
      simp [hAfter] at hNone
    rw [(hOther u hElse).2]
    exact h.absent u ((hOther u hElse).1 ▸ hNone)
  · rw [hReads]
    by_cases hHere : u = t
    · subst hHere
      obtain rfl := Option.some.inj (hAfter.symm.trans hGroup)
      exact hStored
    · rw [(hOther u hHere).2]
      exact h.stored u g ((hOther u hHere).1 ▸ hGroup)

/-- A step inside `push_buffer` learns what its tests say, or stores the payload. -/
theorem contents_push {t : Track} {g : PPMediaBufferGroup} {p : Payload} {pc : PushPc}
    (h : Contents cfg s) (hPc : s.producer = .push t p pc) (hGroup : s.group t = some g)
    (hStep : pushStep s t g p pc = some s') : Contents cfg s' := by
  obtain ⟨hPayload, hKnown⟩ := h.hand t p pc hPc
  have hFits := hKnown g hGroup
  have hStored := h.stored t g hGroup
  have hInside := hStored.layout.reading_lt
  have hGoto : ∀ {next}, some { s with producer := ProducerPc.push t p next } = some s' →
      next.Fits g p.data.length → Contents cfg s' := by
    intro next hSame hNext
    obtain rfl := Option.some.inj hSame
    refine ⟨fun u q pc' hPush => ?_, h.absent, h.stored⟩
    obtain ⟨rfl, rfl, rfl⟩ := ProducerPc.push.inj hPush
    refine ⟨hPayload, fun g' hThere => ?_⟩
    obtain rfl := Option.some.inj (hGroup.symm.trans hThere)
    exact hNext
  have hLeave : some { s with producer := ProducerPc.loopTest } = some s' → Contents cfg s' := by
    intro hSame
    obtain rfl := Option.some.inj hSame
    exact h.leave rfl rfl (KeepsRings.of_eq rfl) (by simp)
  unfold pushStep at hStep
  cases pc with
  | store addr =>
      obtain rfl := Option.some.inj hStep
      refine h.onTrack t rfl (show _ = some (g.store p addr) from ?_) (fun u hOther => ?_) ?_
        (by simp)
      · simp [State.onGroup, hGroup]
      · simp [State.onGroup, hOther]
      · exact hStored.store hFits hPayload
  | enter =>
      dsimp only at hStep
      split_ifs at hStep with _ hLarge
      · exact hLeave hStep
      · exact hGoto hStep (Nat.le_of_not_lt hLarge)
  | acquiring =>
      dsimp only at hStep
      split_ifs at hStep
      · exact hLeave hStep
      · exact hGoto hStep hFits
  | cmpAbove =>
      dsimp only at hStep
      split_ifs at hStep with hAbove hEnd
      · exact hGoto hStep (Or.inl ⟨rfl, hEnd, by omega⟩)
      · exact hGoto hStep ⟨hFits, hAbove⟩
      · exact hGoto hStep hFits
  | frontTest =>
      dsimp only at hStep
      split_ifs at hStep with hFront
      · exact hGoto hStep (Or.inr ⟨rfl, hFits.2, hFront⟩)
      · exact hGoto hStep hFits.1
  | cmpBelow =>
      dsimp only at hStep
      split_ifs at hStep
      · exact hGoto hStep hFits
      · exact hLeave hStep
  | middleTest =>
      dsimp only at hStep
      split_ifs at hStep with hMiddle
      · exact hGoto hStep (Or.inl ⟨rfl, by omega, fun _ => hMiddle⟩)
      · exact hGoto hStep hFits
  | waiting => exact hGoto hStep hFits
  | asleep signalled =>
      dsimp only at hStep
      split_ifs at hStep
      exact hGoto hStep hFits

theorem contents_producer (h : Contents cfg s) (hGuard : ReleasesInOrder s .producer)
    (hStep : producerStep cfg s = some s') : Contents cfg s' := by
  cases produces_of_step hStep with
  | push hPc hGroup hPush => exact contents_push h hPc hGroup hPush
  | pushError hPc hGroup hPush =>
      rcases pushErrorStep_cases hPush with rfl | rfl <;>
        exact h.leave rfl rfl (KeepsRings.of_eq rfl) (by simp)
  | @seekClear t hPc hFree =>
      have hNone := hGuard t hPc
      cases hGroup : s.group t with
      | none =>
          refine h.leave rfl rfl (KeepsRings.of_eq ?_) (by simp)
          funext u
          simp only [State.onGroup_group]
          split_ifs with hHere <;> simp [hHere, hGroup]
      | some g =>
          have hStored := h.stored t g hGroup
          rw [hNone] at hStored
          refine h.onTrack t rfl (show _ = some (g.clearBuffer s.mSeekTimeUs) from ?_)
            (fun u hOther => ?_) ?_ (by simp)
          · simp [State.onGroup, hGroup]
          · simp [State.onGroup, hOther]
          · exact hNone.symm ▸ hStored.clear
  | seekEndVideo hPc | seekEndAudio hPc | publishVideo hPc | publishAudio hPc =>
      exact h.leave rfl rfl (keepsRings_onGroup rfl fun _ => ⟨rfl, rfl, rfl, rfl, rfl⟩) (by simp)
  | @seekDone t hPc hFree =>
      refine h.leave rfl rfl (keepsRings_onGroup rfl fun _ => ⟨rfl, rfl, rfl, rfl, rfl⟩) ?_
      cases t <;> simp
  | seekEndFlag hPc | seekBox hPc | seekLock hPc hFree | publishFlag hPc | exiting hPc
  | seekFinish hPc =>
      exact h.leave rfl rfl (KeepsRings.of_eq rfl) (by simp)
  | loopTest hPc | seekTest hPc | seekBranch hPc | doneTest hPc =>
      refine h.leave rfl rfl (KeepsRings.of_eq rfl) ?_
      dsimp only
      split_ifs <;> simp

theorem contents_readSample {result : ReadResult} {fuel : Nat} (h : Contents cfg s)
    (hStep : readSampleStep cfg s result fuel = some s') : Contents cfg s' := by
  obtain ⟨hPc, pc, hHandled, rfl⟩ := readSampleStep_cases hStep
  refine ⟨fun t p next hPush => ?_, h.absent, fun t g hGroup => ?_⟩
  · obtain ⟨rfl, hPayload⟩ := handleRead_payload (hHandled.trans (congrArg some hPush))
    exact ⟨hPayload, fun _ _ => trivial⟩
  · exact (h.stored t g hGroup).same (List.prefix_append _ _) (SameRing.refl g)

theorem contents_seeker (h : Contents cfg s) (hStep : seekerStep s = some s') :
    Contents cfg s' := by
  cases seeks_of_step hStep with
  | @notify t hSeeker hFree =>
      exact @Contents.signalled cfg s _ h t rfl rfl
        (keepsRings_onGroup rfl fun _ => ⟨rfl, rfl, rfl, rfl, rfl⟩) rfl
  | enter | wait | wake => exact h.stays rfl rfl (KeepsRings.of_eq rfl) rfl

/-- The groups that `start` creates are empty. -/
theorem contents_start (hCoherent : Coherent s) (h : Contents cfg s)
    (hStep : startStep cfg s = some s') : Contents cfg s' := by
  rcases startStep_cases hStep with rfl | ⟨hStopped, hIdle, _, rfl⟩
  · exact h
  · have hNone := (hCoherent.stopped hStopped hIdle).2
    refine ⟨by simp, fun t _ => h.absent t (hNone t), fun t g hGroup => ?_⟩
    simp only [hNone] at hGroup
    split_ifs at hGroup
    obtain rfl := Option.some.inj hGroup
    rw [h.absent t (hNone t)]
    exact Stored.new cfg t s.reads

theorem contents_control (h : Contents cfg s) (hStep : controlStep s = some s') :
    Contents cfg s' := by
  cases controls_of_step hStep with
  | @notifyStop t hControl =>
      exact @Contents.signalled cfg s _ h t rfl rfl
        (keepsRings_onGroup rfl fun _ => ⟨rfl, rfl, rfl, rfl, rfl⟩) rfl
  | join hControl hExited => exact h.stays rfl rfl (KeepsRings.of_eq rfl) rfl
  | @delete t hControl hFree =>
      have hLeft : ∀ u g, Function.update s.group t none u = some g → u ≠ t ∧ s.group u = some g := by
        intro u g hGroup
        rw [Function.update_apply] at hGroup
        split_ifs at hGroup with hHere
        exact ⟨hHere, hGroup⟩
      refine ⟨fun u p pc hPush => ?_, fun u hNone => ?_, fun u g hGroup => ?_⟩
      · obtain ⟨hPayload, hKnown⟩ := h.hand u p pc hPush
        exact ⟨hPayload, fun g hGroup => hKnown g (hLeft u g hGroup).2⟩
      · by_cases hHere : u = t
        · simp [hHere]
        · simpa [hHere] using h.absent u (by simpa [hHere] using hNone)
      · obtain ⟨hElse, hOld⟩ := hLeft u g hGroup
        simpa [hElse] using h.stored u g hOld

/-- A reader moves on, or takes the first frame. -/
theorem contents_pop {t : Track} {g : PPMediaBufferGroup} (h : Contents cfg s)
    (hGroup : s.group t = some g) (hStep : popStep s t g = some s') : Contents cfg s' := by
  unfold popStep at hStep
  cases hReader : s.reader t with
  | idle | returned | dangling => simp [hReader] at hStep
  | headTest =>
      simp only [hReader] at hStep
      cases hFrames : g.frames with
      | nil =>
          simp only [hFrames, Option.some.injEq] at hStep
          subst hStep
          exact h.stays rfl rfl (KeepsRings.of_eq rfl) rfl
      | cons b rest =>
          simp only [hFrames, Option.some.injEq] at hStep
          subst hStep
          have hTaken : (s.onGroup t (·.takeFirst true rest)).group t =
              some (g.takeFirst true rest) := by simp [State.onGroup, hGroup]
          refine h.onTrack t rfl hTaken (fun u hOther => ?_) ?_ fun u p pc hPush => ?_
          · simp [State.setReader, State.onGroup, hOther]
          · simpa [State.setReader, State.onGroup] using (h.stored t g hGroup).pop hFrames
          · obtain ⟨hPayload, hKnown⟩ := h.hand u p pc hPush
            refine ⟨hPayload, fun g' hThere => ?_⟩
            by_cases hHere : u = t
            · subst hHere
              obtain rfl := Option.some.inj (hTaken.symm.trans hThere)
              have hFits := hKnown g hGroup
              cases pc <;> exact hFits
            · refine hKnown g' ?_
              simpa [State.setReader, State.onGroup, hHere] using hThere
  | rearm =>
      simp only [hReader, Option.some.injEq] at hStep
      subst hStep
      refine h.stays rfl rfl (keepsRings_onGroup (t := t)
        (f := fun g => { g with mStartBuffering := true }) rfl fun _ => ?_) rfl
      exact ⟨rfl, rfl, rfl, rfl, rfl⟩
  | enter | asleep | whileTest | stopTest | doneTest =>
      simp only [hReader] at hStep
      split_ifs at hStep
      all_goals
        obtain rfl := Option.some.inj hStep
        exact h.stays rfl rfl (KeepsRings.of_eq rfl) rfl

/-- The oldest frame is given back, if the guard holds. -/
theorem contents_release {t : Track} (h : Contents cfg s)
    (hStep : releaseStep s t 0 = some s') : Contents cfg s' := by
  obtain ⟨b, hFirst, rfl⟩ := Option.map_eq_some_iff.mp hStep
  obtain ⟨rest, hHeld⟩ : ∃ rest, s.held t = b :: rest := by
    cases hList : s.held t with
    | nil => simp [hList] at hFirst
    | cons c rest => exact ⟨rest, by simpa [hList] using hFirst⟩
  cases hGroup : s.group t with
  | none => simp [h.absent t hGroup] at hHeld
  | some g =>
      have hStored := h.stored t g hGroup
      rw [hHeld] at hStored
      have hGiven : (s.onGroup t (·.signalBufferReturned b)).group t =
          some (g.signalBufferReturned b) := by simp [State.onGroup, hGroup]
      refine h.onTrack t rfl hGiven (fun u hOther => ?_) ?_ fun u p pc hPush => ?_
      · simp [State.onGroup, hOther]
      · simpa [State.onGroup, hHeld] using hStored.release
      · obtain ⟨pc', hOld, hFits⟩ := signal_fits hPush
        obtain ⟨hPayload, hKnown⟩ := h.hand u p pc' hOld
        refine ⟨hPayload, fun g' hThere => ?_⟩
        by_cases hHere : u = t
        · subst hHere
          obtain rfl := Option.some.inj (hGiven.symm.trans hThere)
          exact hStored.fits_release (hFits g (hKnown g hGroup))
        · refine hFits g' (hKnown g' ?_)
          simpa [State.onGroup, hHere] using hThere

theorem contents_step {act : Act} (hCoherent : Coherent s) (h : Contents cfg s)
    (hGuard : ReleasesInOrder s act) (hStep : step cfg s act = some s') : Contents cfg s' := by
  unfold step at hStep
  split_ifs at hStep
  cases act with
  | producer => exact contents_producer h hGuard hStep
  | readSample result fuel => exact contents_readSample h hStep
  | spuriousWake =>
      simp only [liveStep] at hStep
      split at hStep
      case h_2 => cases hStep
      case h_1 t p signalled hPc =>
        obtain rfl := Option.some.inj hStep
        refine h.keep rfl rfl (KeepsRings.of_eq rfl) fun u q pc hPush => ?_
        obtain ⟨rfl, rfl, rfl⟩ := ProducerPc.push.inj hPush
        exact ⟨_, hPc, fun _ hFits => hFits⟩
  | seekTo seekTimeUs =>
      obtain ⟨-, rfl⟩ := seekTo_cases hStep
      exact h.stays rfl rfl (KeepsRings.of_eq rfl) rfl
  | seeker => exact contents_seeker h hStep
  | start => exact contents_start hCoherent h hStep
  | stop =>
      rcases stopStep_cases hStep with rfl | ⟨_, _, rfl⟩
      · exact h
      · exact h.stays rfl rfl (KeepsRings.of_eq rfl) rfl
  | control => exact contents_control h hStep
  | read t =>
      simp only [liveStep, readStep] at hStep
      split at hStep
      all_goals first
        | obtain rfl := Option.some.inj hStep
          exact h.stays rfl rfl (KeepsRings.of_eq rfl) rfl
        | simp at hStep
  | reader t =>
      simp only [liveStep, readerStep] at hStep
      cases hGroup : s.group t with
      | some g =>
          simp only [hGroup] at hStep
          exact contents_pop h hGroup hStep
      | none =>
          simp only [hGroup] at hStep
          split at hStep
          all_goals first
            | obtain rfl := Option.some.inj hStep
              exact h.stays rfl rfl (KeepsRings.of_eq rfl) rfl
            | simp at hStep
  | release t index =>
      obtain rfl : index = 0 := hGuard
      exact contents_release h hStep
  | releaseOrphan t index =>
      simp only [liveStep] at hStep
      split_ifs at hStep
      obtain rfl := Option.some.inj hStep
      exact h.stays rfl rfl (KeepsRings.of_eq rfl) rfl

end Steps

end Meet.PPExtractor
