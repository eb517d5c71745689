import Meet.PPExtractor.Coherence

/-! Straight runs of the producer that nobody disturbs: from the top of its loop
to the next `readSampleEx2`, and through `push_buffer` into the group or into its
wait. They hold for samples of any length. -/
namespace Meet.PPExtractor

section Straight

variable {cfg : Config} {s : State}

/-- The producer runs without a seek and before the end of the stream. -/
structure Pumping (s : State) : Prop where
  mStarted : s.mStarted = true
  isSeeking : s.isSeeking = false
  isStreamDone : s.isStreamDone = false

theorem run_toReading (h : Pumping s) (hPc : s.producer = .loopTest) :
    Run (step cfg) unguarded s (List.replicate 3 Act.producer) { s with producer := .reading } := by
  apply Run.of_exec
  simp [List.replicate, exec, step, liveStep, producerStep, hPc, h.mStarted, h.isSeeking,
    h.isStreamDone]

/-- An audio sample with data goes into `push_buffer` as it is. -/
theorem run_readAudio {sample : Sample} (fuel : Nat) (hPc : s.producer = .reading)
    (hVideo : sample.streamIndex ≠ cfg.mVideoTrackID)
    (hAudio : sample.streamIndex = cfg.mAudioTrackID) (hData : 0 < sample.bufferLength)
    (hGroup : (s.group .audio).isSome = true) :
    Run (step cfg) unguarded s [Act.readSample (.sample sample) fuel] { s with
      reads := s.reads ++ [.sample sample]
      producer := .push .audio ⟨sample.buffer.read 0 sample.bufferLength, sample.startTime,
        sample.isSync, s.reads.length⟩ .enter } := by
  have hNonempty : sample.buffer.read 0 sample.bufferLength ≠ [] :=
    List.ne_nil_of_length_pos (by simpa using hData)
  have hDifferent : cfg.mAudioTrackID ≠ cfg.mVideoTrackID := hAudio ▸ hVideo
  refine Run.single trivial ?_
  simp [step, liveStep, readSampleStep, hPc, handleRead, hDifferent, hAudio, enterPush, hNonempty,
    Option.isSome_iff_ne_none.mp hGroup]

variable {t : Track} {g : PPMediaBufferGroup} {p : Payload}

/-- What the producer finds when it enters `push_buffer` undisturbed. -/
structure Entering (s : State) (t : Track) (g : PPMediaBufferGroup) (p : Payload) : Prop where
  pc : s.producer = .push t p .enter
  group : s.group t = some g
  reader : (s.reader t).holdsGroup = false
  fits : p.data.length + 2 ≤ g.mSize
  calm : g.mIsSeeking = false ∧ g.mIsStopping = false

/-- There is room behind the last frame. -/
theorem run_pushEnd (h : Entering s t g p) (hAbove : g.mReadingAddr < g.mWritingAddr)
    (hRoom : g.mWritingAddr + p.data.length + 1 < g.mSize) :
    Run (step cfg) unguarded s (List.replicate 4 Act.producer)
      { s.onGroup t (·.store p g.mWritingAddr) with producer := .loopTest } := by
  apply Run.of_exec
  simp [List.replicate, exec, step, liveStep, producerStep, pushStep, h.pc, h.group, h.reader,
    h.calm.1, h.calm.2, Nat.not_lt.mpr h.fits, hAbove, hRoom, State.onGroup]

/-- There is room before the first frame only. -/
theorem run_pushFront (h : Entering s t g p) (hAbove : g.mReadingAddr < g.mWritingAddr)
    (hEnd : g.mSize ≤ g.mWritingAddr + p.data.length + 1)
    (hRoom : p.data.length + 1 < g.mReadingAddr) :
    Run (step cfg) unguarded s (List.replicate 5 Act.producer)
      { s.onGroup t (·.store p 0) with producer := .loopTest } := by
  apply Run.of_exec
  simp [List.replicate, exec, step, liveStep, producerStep, pushStep, h.pc, h.group, h.reader,
    h.calm.1, h.calm.2, Nat.not_lt.mpr h.fits, hAbove, Nat.not_lt.mpr hEnd, hRoom, State.onGroup]

/-- There is room nowhere, and the producer goes to sleep. -/
theorem run_pushWaits (h : Entering s t g p) (hAbove : g.mReadingAddr < g.mWritingAddr)
    (hEnd : g.mSize ≤ g.mWritingAddr + p.data.length + 1)
    (hFront : g.mReadingAddr ≤ p.data.length + 1) :
    Run (step cfg) unguarded s (List.replicate 5 Act.producer)
      { s with producer := .push t p (.asleep false) } := by
  apply Run.of_exec
  simp [List.replicate, exec, step, liveStep, producerStep, pushStep, h.pc, h.group, h.reader,
    h.calm.1, h.calm.2, Nat.not_lt.mpr h.fits, hAbove, Nat.not_lt.mpr hEnd, Nat.not_lt.mpr hFront]

/-- The first comparison finds the writing address below the reading address. -/
theorem run_compare (h : Entering s t g p) (hBelow : g.mWritingAddr < g.mReadingAddr) :
    Run (step cfg) unguarded s (List.replicate 3 Act.producer)
      { s with producer := .push t p .cmpBelow } := by
  apply Run.of_exec
  simp [List.replicate, exec, step, liveStep, producerStep, pushStep, h.pc, h.group, h.reader,
    h.calm.1, h.calm.2, Nat.not_lt.mpr h.fits, Nat.not_lt.mpr (Nat.le_of_lt hBelow)]

/-- The end of the stream is read and published. -/
theorem run_publish (hPc : s.producer = .reading) :
    Run (step cfg) unguarded s ([Act.readSample .streamEnd 0] ++ List.replicate 3 Act.producer)
      { (s.onGroup .video (·.notifyStreamdone)).onGroup .audio (·.notifyStreamdone) with
        reads := s.reads ++ [.streamEnd], isStreamDone := true, producer := .loopTest } := by
  apply Run.of_exec
  simp [List.replicate, exec, step, liveStep, readSampleStep, handleRead, producerStep, hPc,
    State.onGroup]

/-- A reader finds the group empty and the stream done. -/
theorem run_popEnd (hReader : s.reader t = .enter) (hGroup : s.group t = some g)
    (hFree : s.producer = .loopTest) (hDone : g.mIsStreamDone = true ∧ g.mIsStopping = false)
    (hFrames : g.frames = []) :
    Run (step cfg) unguarded s (List.replicate 5 (Act.reader t))
      (s.setReader t (.returned .endOfStream)) := by
  apply Run.of_exec
  simp [List.replicate, exec, step, liveStep, readerStep, popStep, State.setReader, hReader, hGroup,
    hFree, ProducerPc.holdsGroup, hDone.1, hDone.2, hFrames]

/-- From the top of the loop into `push_buffer` with an audio sample. -/
theorem run_toPushAudio {sample : Sample} (hPumping : Pumping s) (hPc : s.producer = .loopTest)
    (hVideo : sample.streamIndex ≠ cfg.mVideoTrackID)
    (hAudio : sample.streamIndex = cfg.mAudioTrackID) (hData : 0 < sample.bufferLength)
    (hGroup : s.group .audio = some g) (hReader : (s.reader .audio).holdsGroup = false)
    (hFits : sample.bufferLength + 2 ≤ g.mSize)
    (hCalm : g.mIsSeeking = false ∧ g.mIsStopping = false) :
    ∃ p reads, p.data.length = sample.bufferLength ∧
      Run (step cfg) unguarded s (List.replicate 3 Act.producer ++ [Act.readSample (.sample sample) 0])
        { s with reads := reads, producer := .push .audio p .enter } ∧
      Entering { s with reads := reads, producer := .push .audio p .enter } .audio g p :=
  ⟨_, _, Memory.read_length _ _ _, (run_toReading hPumping hPc).trans
    (run_readAudio 0 rfl hVideo hAudio hData (by simp [hGroup])),
    ⟨rfl, hGroup, hReader, by simpa using hFits, hCalm⟩⟩

/-- An audio sample is read and stored behind the last frame. -/
theorem run_storeAudio {sample : Sample} (hPumping : Pumping s) (hPc : s.producer = .loopTest)
    (hVideo : sample.streamIndex ≠ cfg.mVideoTrackID)
    (hAudio : sample.streamIndex = cfg.mAudioTrackID) (hData : 0 < sample.bufferLength)
    (hGroup : s.group .audio = some g) (hReader : (s.reader .audio).holdsGroup = false)
    (hCalm : g.mIsSeeking = false ∧ g.mIsStopping = false)
    (hAbove : g.mReadingAddr < g.mWritingAddr)
    (hRoom : g.mWritingAddr + sample.bufferLength + 1 < g.mSize) :
    ∃ p s', p.data.length = sample.bufferLength ∧
      Run (step cfg) unguarded s (List.replicate 3 Act.producer ++ [Act.readSample (.sample sample) 0] ++
        List.replicate 4 Act.producer) s' ∧
      s'.producer = .loopTest ∧ Pumping s' ∧ s'.group .audio = some (g.store p g.mWritingAddr) ∧
      s'.group .video = s.group .video ∧ s'.reader = s.reader := by
  obtain ⟨p, reads, hLength, toPush, hEntering⟩ :=
    run_toPushAudio hPumping hPc hVideo hAudio hData hGroup hReader (by omega) hCalm
  refine ⟨p, _, hLength, toPush.trans (run_pushEnd hEntering hAbove (by omega)), rfl, ?_, ?_, ?_, rfl⟩
  · exact ⟨hPumping.mStarted, hPumping.isSeeking, hPumping.isStreamDone⟩
  · simp [State.onGroup_group, hGroup]
  · simp [State.onGroup_group]

/-- A converted video sample with data goes into `push_buffer`. -/
theorem run_readVideo {sample : Sample} {fuel : Nat} {dst : List UInt8}
    (hPc : s.producer = .reading) (hVideo : sample.streamIndex = cfg.mVideoTrackID)
    (hConverted : constructNalus cfg sample.buffer sample.bufferLength fuel = some (.written dst))
    (hData : dst ≠ []) (hGroup : (s.group .video).isSome = true) :
    Run (step cfg) unguarded s [Act.readSample (.sample sample) fuel] { s with
      reads := s.reads ++ [.sample sample]
      producer := .push .video ⟨dst, sample.startTime, sample.isSync, s.reads.length⟩ .enter } := by
  refine Run.single trivial ?_
  simp [step, liveStep, readSampleStep, hPc, handleRead, hVideo, hConverted, handleVideo, enterPush,
    hData, Option.isSome_iff_ne_none.mp hGroup]

end Straight

/-- A reader is not in `pop_buffer`. -/
def ReaderPc.resting : ReaderPc → Bool
  | .idle | .returned _ => true
  | _ => false

/-- The producer stands at the top of its loop and the video reader is at rest. -/
structure Resting (s : State) (g : PPMediaBufferGroup) (held : List MediaBuffer) : Prop where
  pumping : Pumping s
  pc : s.producer = .loopTest
  group : s.group .video = some g
  reader : (s.reader .video).resting = true
  held : s.held .video = held
  calm : g.mIsSeeking = false ∧ g.mIsStopping = false

namespace Resting

variable {cfg : Config} {s : State} {g : PPMediaBufferGroup} {held : List MediaBuffer}

theorem holdsGroup {pc : ReaderPc} (h : pc.resting = true) : pc.holdsGroup = false := by
  cases pc <;> simp_all [ReaderPc.resting, ReaderPc.holdsGroup]

section Store

variable {sample : Sample} {fuel : Nat} {dst : List UInt8} (h : Resting s g held)
    (hVideo : sample.streamIndex = cfg.mVideoTrackID)
    (hConverted : constructNalus cfg sample.buffer sample.bufferLength fuel = some (.written dst))
    (hData : dst ≠ []) (hFits : dst.length + 2 ≤ g.mSize)
include h hVideo hConverted hData hFits

theorem toPush :
    ∃ p s', p.data = dst ∧
      Run (step cfg) unguarded s (List.replicate 3 Act.producer ++ [Act.readSample (.sample sample) fuel])
        s' ∧ Entering s' .video g p ∧ Pumping s' ∧ s'.reader = s.reader ∧ s'.held = s.held ∧
      s'.delivered = s.delivered :=
  ⟨_, _, rfl, (run_toReading h.pumping h.pc).trans
    (run_readVideo rfl hVideo hConverted hData (by simp [h.group])),
    ⟨rfl, h.group, holdsGroup h.reader, hFits, h.calm⟩,
    ⟨h.pumping.mStarted, h.pumping.isSeeking, h.pumping.isStreamDone⟩, rfl, rfl, rfl⟩

/-- A video sample is stored behind the last frame. -/
theorem storeEnd (hAbove : g.mReadingAddr < g.mWritingAddr)
    (hRoom : g.mWritingAddr + dst.length + 1 < g.mSize) :
    ∃ p s', p.data = dst ∧
      Run (step cfg) unguarded s (List.replicate 3 Act.producer ++
        [Act.readSample (.sample sample) fuel] ++ List.replicate 4 Act.producer) s' ∧
      Resting s' (g.store p g.mWritingAddr) held := by
  obtain ⟨p, s', rfl, toPush, hEntering, hPumping, hReader, hHeld, _⟩ :=
    h.toPush hVideo hConverted hData hFits
  refine ⟨p, _, rfl, toPush.trans (run_pushEnd hEntering hAbove hRoom), ⟨?_, rfl, ?_, ?_, ?_, h.calm⟩⟩
  · exact ⟨hPumping.mStarted, hPumping.isSeeking, hPumping.isStreamDone⟩
  · simp [State.onGroup_group, hEntering.group]
  · simpa [State.onGroup, hReader] using h.reader
  · simpa [State.onGroup, hHeld] using h.held

/-- A video sample is stored before the first frame. -/
theorem storeFront (hAbove : g.mReadingAddr < g.mWritingAddr)
    (hEnd : g.mSize ≤ g.mWritingAddr + dst.length + 1) (hRoom : dst.length + 1 < g.mReadingAddr) :
    ∃ p s', p.data = dst ∧
      Run (step cfg) unguarded s (List.replicate 3 Act.producer ++
        [Act.readSample (.sample sample) fuel] ++ List.replicate 5 Act.producer) s' ∧
      Resting s' (g.store p 0) held := by
  obtain ⟨p, s', rfl, toPush, hEntering, hPumping, hReader, hHeld, _⟩ :=
    h.toPush hVideo hConverted hData hFits
  refine ⟨p, _, rfl, toPush.trans (run_pushFront hEntering hAbove hEnd hRoom),
    ⟨?_, rfl, ?_, ?_, ?_, h.calm⟩⟩
  · exact ⟨hPumping.mStarted, hPumping.isSeeking, hPumping.isStreamDone⟩
  · simp [State.onGroup_group, hEntering.group]
  · simpa [State.onGroup, hReader] using h.reader
  · simpa [State.onGroup, hHeld] using h.held

/-- The frame before the wrap is released between the two comparisons, and the
sample in hand is lost. -/
theorem lose {b : MediaBuffer} (hHeld : held = [b]) (hBelow : g.mWritingAddr < g.mReadingAddr)
    (hCrosses : b.data + b.size ≤ g.mWritingAddr) :
    ∃ p x y, p.data = dst ∧
      Run (step cfg) unguarded s (List.replicate 3 Act.producer ++
        [Act.readSample (.sample sample) fuel] ++ List.replicate 3 Act.producer) x ∧
      x.producer = .push .video p .cmpBelow ∧ x.group .video = some g ∧
      Run (step cfg) unguarded x [.release .video 0, .producer] y ∧
      Resting y (g.signalBufferReturned b) [] ∧ y.reads = x.reads ∧ y.delivered = x.delivered := by
  obtain ⟨p, s', rfl, toPush, hEntering, hPumping, hReader, hSame, _⟩ :=
    h.toPush hVideo hConverted hData hFits
  have hOnly : s'.held .video = [b] := by rw [hSame, h.held, hHeld]
  refine ⟨p, _, { s'.onGroup .video (·.signalBufferReturned b) with
      held := Function.update s'.held .video [], producer := .loopTest }, rfl,
    toPush.trans (run_compare hEntering hBelow), rfl, hEntering.group, Run.of_exec ?_, ?_, rfl, rfl⟩
  · simp [exec, step, liveStep, releaseStep, hOnly, ProducerPc.signal, producerStep, pushStep,
      State.onGroup, hEntering.group, PPMediaBufferGroup.signalBufferReturned,
      Nat.not_lt.mpr hCrosses]
  · refine ⟨⟨hPumping.mStarted, hPumping.isSeeking, hPumping.isStreamDone⟩, rfl, ?_, ?_, ?_, h.calm⟩
    · simp [State.onGroup, hEntering.group]
    · simpa [State.onGroup, hReader] using h.reader
    · simp

end Store

/-- The call of a reader finds the group. -/
theorem step_read (h : Resting s g held) :
    step cfg s (.read .video) = some (s.setReader .video .enter) := by
  have hReader := h.reader
  cases hPc : s.reader .video <;> simp [hPc, ReaderPc.resting] at hReader <;>
    simp [step, liveStep, readStep, h.pc, h.group, hPc]

/-- The reader takes the first frame. -/
theorem pop (h : Resting s g held) {b : MediaBuffer} {rest : List MediaBuffer}
    (hOpen : g.mStartBuffering = false) (hFrames : g.frames = b :: rest) :
    ∃ s', Run (step cfg) unguarded (s.setReader .video .enter)
        (List.replicate 4 (Act.reader .video)) s' ∧
      Resting s' (g.takeFirst true rest) (held ++ [b]) := by
  refine ⟨{ (s.onGroup .video (·.takeFirst true rest)).setReader .video (.returned (.frame b)) with
      held := Function.update s.held .video (s.held .video ++ [b])
      delivered := Function.update s.delivered .video (s.delivered .video ++ [g.view b]) },
    Run.of_exec ?_, ?_⟩
  · simp [List.replicate, exec, step, liveStep, readerStep, popStep, State.setReader, State.onGroup,
      h.pc, h.group, ProducerPc.holdsGroup, hOpen, h.calm.2, hFrames]
  · refine ⟨⟨h.pumping.mStarted, h.pumping.isSeeking, h.pumping.isStreamDone⟩, h.pc, ?_, ?_, ?_,
      h.calm⟩
    · simp [State.setReader, State.onGroup, h.group]
    · simp [State.setReader, ReaderPc.resting]
    · simp [h.held]

/-- The only frame is released. -/
theorem release {b : MediaBuffer} (h : Resting s g [b]) :
    ∃ s', step cfg s (.release .video 0) = some s' ∧ Resting s' (g.signalBufferReturned b) [] := by
  refine ⟨{ s.onGroup .video (·.signalBufferReturned b) with
      held := Function.update s.held .video [], producer := .loopTest }, ?_, ?_⟩
  · simp [step, liveStep, releaseStep, h.pc, h.held, ProducerPc.signal]
  · refine ⟨⟨h.pumping.mStarted, h.pumping.isSeeking, h.pumping.isStreamDone⟩, rfl, ?_, h.reader, ?_,
      h.calm⟩
    · simp [State.onGroup, h.group]
    · simp

/-- The producer publishes the end, and the reader of an empty group is told. -/
theorem toEnd (h : Resting s g held) (hFrames : g.frames = []) :
    ∃ s', Run (step cfg) unguarded (s.setReader .video .enter)
        (List.replicate 3 Act.producer ++ [Act.readSample .streamEnd 0] ++
          List.replicate 3 Act.producer ++ List.replicate 5 (Act.reader .video)) s' ∧
      s'.reader .video = .returned .endOfStream ∧ s'.reads = s.reads ++ [.streamEnd] ∧
      s'.delivered = s.delivered := by
  have hPumping : Pumping (s.setReader .video .enter) :=
    ⟨h.pumping.mStarted, h.pumping.isSeeking, h.pumping.isStreamDone⟩
  have reading := @run_toReading cfg _ hPumping h.pc
  have publishing := @run_publish cfg { s.setReader .video .enter with producer := .reading } rfl
  have ending := @run_popEnd cfg { ((s.setReader .video .enter).onGroup .video
      (·.notifyStreamdone)).onGroup .audio (·.notifyStreamdone) with
      reads := s.reads ++ [.streamEnd], isStreamDone := true, producer := .loopTest } .video
    g.notifyStreamdone (by simp [State.setReader, State.onGroup])
    (by simp [State.setReader, State.onGroup, h.group]) rfl ⟨rfl, h.calm.2⟩ hFrames
  have run := (reading.trans publishing).trans ending
  simp only [← List.append_assoc] at run
  exact ⟨_, run, by simp [State.setReader], rfl, rfl⟩

end Resting

end Meet.PPExtractor
