import Meet.Common.Run
import Meet.PPExtractor.ConstructNalus
import Meet.PPMediaBufferGroup.Basic
import Mathlib.Algebra.Group.Int.Defs
import Mathlib.Logic.Function.Basic

/-! The threads of `ppExtractor.cpp`: the producer in `threadEntry`, a caller
of `seekTo`, a caller of `start` and `stop`, and one reader of each track. A
step is what a thread does between two points where another thread can see or
change what it works on. Locks are not stored: who holds one follows from where
the threads stand. -/
namespace Meet.PPExtractor

inductive Track where
  | video
  | audio
deriving DecidableEq, Repr

def Track.other : Track → Track
  | .video => .audio
  | .audio => .video

/-- The group that `start` creates for a track. -/
def newGroup : Track → PPMediaBufferGroup
  | .video => .new (1024 * 1024 * 6) 1
  | .audio => .new (1024 * 512 * 2) (200 * 2)

structure Sample extends SampleBuffer where
  streamIndex : Nat
  startTime : Int
  isSync : Bool

/-- What `readSampleEx2` returns. -/
inductive ReadResult where
  | sample (sample : Sample)
  | wouldBlock
  | streamEnd
  | error (ec : Int)

/-- A result at which the producer ends the stream. -/
def ReadResult.ends : ReadResult → Bool
  | .streamEnd | .error _ => true
  | .sample _ | .wouldBlock => false

/-- Where the producer stands in `push_buffer`. Each of `cmpAbove`, `frontTest`,
`cmpBelow` and `middleTest` reads `mReadingAddr` once. -/
inductive PushPc where
  | enter
  | acquiring
  | cmpAbove
  | frontTest
  | cmpBelow
  | middleTest
  | waiting
  | asleep (signalled : Bool)
  | store (addr : Nat)
deriving DecidableEq, Repr

/-- Where the producer stands in `threadEntry`. The thread does not exist in
`off` and `exited`; in `crashed` the process is gone. -/
inductive ProducerPc where
  | off
  | loopTest
  | seekTest
  | seekLock
  | seekBranch
  | seekEnd (t : Track)
  | seekEndFlag
  | seekBox
  | seekClear (t : Track)
  | seekDone (t : Track)
  | seekFinish
  | doneTest
  | reading
  | push (t : Track) (p : Payload) (pc : PushPc)
  | pushError
  | publish (t : Track)
  | publishFlag
  | exiting
  | exited
  | crashed
deriving DecidableEq, Repr

/-- Where the caller of `seekTo` stands. -/
inductive SeekerPc where
  | idle
  | enter
  | notify (t : Track)
  | wait
  | asleep (signalled : Bool)
deriving DecidableEq, Repr

/-- Where the caller of `stop` stands. -/
inductive ControlPc where
  | idle
  | notifyStop (t : Track)
  | join
  | delete (t : Track)
deriving DecidableEq, Repr

inductive ReadReturn where
  | frame (b : MediaBuffer)
  | endOfStream
  | errorIo
deriving DecidableEq, Repr

/-- Where a reader stands in `pop_buffer`. It is `dangling` when the group it
waits in has been deleted. -/
inductive ReaderPc where
  | idle
  | enter
  | whileTest
  | asleep
  | stopTest
  | headTest
  | doneTest
  | rearm
  | returned (result : ReadReturn)
  | dangling
deriving DecidableEq, Repr

def PushPc.holdsGroup : PushPc → Bool
  | .acquiring | .cmpAbove | .frontTest | .cmpBelow | .middleTest | .waiting | .store _ => true
  | .enter | .asleep _ => false

/-- The producer holds the lock of a group. -/
def ProducerPc.holdsGroup (t : Track) : ProducerPc → Bool
  | .push t' _ pc => t' = t && pc.holdsGroup
  | _ => false

/-- The producer holds `mLock` of the extractor. -/
def ProducerPc.holdsLock : ProducerPc → Bool
  | .seekBranch | .seekEnd _ | .seekEndFlag | .seekBox | .seekClear _ | .seekDone _
  | .seekFinish => true
  | _ => false

def SeekerPc.holdsLock : SeekerPc → Bool
  | .notify _ | .wait => true
  | _ => false

def ReaderPc.holdsGroup : ReaderPc → Bool
  | .whileTest | .stopTest | .headTest | .doneTest | .rearm => true
  | _ => false

/-- A reader is inside `pop_buffer`. -/
def ReaderPc.active : ReaderPc → Bool
  | .idle | .returned _ | .dangling => false
  | _ => true

/-- `mCondition.signal` of a group. -/
def ProducerPc.signal (t : Track) : ProducerPc → ProducerPc
  | .push t' p (.asleep signalled) => .push t' p (.asleep (t' = t || signalled))
  | other => other

/-- `mPauseCondition.signal`. -/
def SeekerPc.signal : SeekerPc → SeekerPc
  | .asleep _ => .asleep true
  | other => other

/-- The extractor with its threads. The frames popped and not yet released are
`held`; those whose group has been deleted are `orphans`. The last six fields
are proof data: all results read so far, the payloads handed out, how many
seeks have been served, how many results had been read when the last one was,
its `start_time`, and whether it was to the end. -/
structure State where
  mStarted : Bool
  isSeeking : Bool
  isStreamDone : Bool
  mSeekTimeUs : Int
  group : Track → Option PPMediaBufferGroup
  producer : ProducerPc
  seeker : SeekerPc
  control : ControlPc
  reader : Track → ReaderPc
  held : Track → List MediaBuffer
  orphans : Track → List MediaBuffer
  reads : List ReadResult
  delivered : Track → List Payload
  seeksServed : Nat
  seekMark : Nat
  servedTime : Nat
  servedToEnd : Bool

def initial : State where
  mStarted := false
  isSeeking := false
  isStreamDone := false
  mSeekTimeUs := 0
  group := fun _ => none
  producer := .off
  seeker := .idle
  control := .idle
  reader := fun _ => .idle
  held := fun _ => []
  orphans := fun _ => []
  reads := []
  delivered := fun _ => []
  seeksServed := 0
  seekMark := 0
  servedTime := 0
  servedToEnd := false

namespace State

/-- Call a member function of a group, if there is one. -/
def onGroup (s : State) (t : Track) (f : PPMediaBufferGroup → PPMediaBufferGroup) : State :=
  { s with group := Function.update s.group t ((s.group t).map f) }

def setReader (s : State) (t : Track) (pc : ReaderPc) : State :=
  { s with reader := Function.update s.reader t pc }

/-- The lock of a group can be taken. -/
def groupFree (s : State) (t : Track) : Bool :=
  !(s.producer.holdsGroup t || (s.reader t).holdsGroup)

/-- `mLock` of the extractor can be taken. -/
def lockFree (s : State) : Bool := !(s.producer.holdsLock || s.seeker.holdsLock)

/-- `PP_uint32 start_time = mSeekTimeUs / 1000`. -/
def startTime (s : State) : Nat := (s.mSeekTimeUs.tdiv 1000 % 2 ^ 32).toNat

/-- The pending seek is to the end of the stream. -/
def seeksToEnd (s : State) (cfg : Config) : Prop := cfg.mDurationTimeUs ≤ s.startTime

instance (s : State) (cfg : Config) : Decidable (s.seeksToEnd cfg) :=
  inferInstanceAs (Decidable (_ ≤ _))

end State

/-- One step inside `push_buffer` of a group. -/
def pushStep (s : State) (t : Track) (g : PPMediaBufferGroup) (p : Payload) (pc : PushPc) :
    Option State :=
  let goto (pc : PushPc) : Option State := some { s with producer := .push t p pc }
  let leave : Option State := some { s with producer := .loopTest }
  let len := p.data.length
  match pc with
  | .enter =>
      if (s.reader t).holdsGroup then none
      else if len + 2 > g.mSize then leave
      else goto .acquiring
  | .acquiring => if g.mIsSeeking || g.mIsStopping then leave else goto .cmpAbove
  | .cmpAbove =>
      if g.mWritingAddr > g.mReadingAddr then
        if g.mWritingAddr + len + 1 < g.mSize then goto (.store g.mWritingAddr)
        else goto .frontTest
      else goto .cmpBelow
  | .frontTest => if len + 1 < g.mReadingAddr then goto (.store 0) else goto .waiting
  | .cmpBelow => if g.mWritingAddr < g.mReadingAddr then goto .middleTest else leave
  | .middleTest =>
      if g.mWritingAddr + len + 1 < g.mReadingAddr then goto (.store g.mWritingAddr)
      else goto .waiting
  | .waiting => goto (.asleep false)
  | .asleep signalled =>
      if signalled && !(s.reader t).holdsGroup then goto .acquiring else none
  | .store addr =>
      some { s.onGroup t (·.store p addr) with producer := .loopTest }

/-- `push_buffer` of the video group with the error value as the length: the
copy is fatal once a buffer has been found. -/
def pushErrorStep (s : State) (g : PPMediaBufferGroup) : Option State :=
  if (s.reader .video).holdsGroup then none
  else if g.mIsSeeking || g.mIsStopping || g.mWritingAddr == g.mReadingAddr then
    some { s with producer := .loopTest }
  else some { s with producer := .crashed }

def producerStep (cfg : Config) (s : State) : Option State :=
  match s.producer with
  | .off | .reading | .exited | .crashed => none
  | .loopTest => some { s with producer := if s.mStarted then .seekTest else .exiting }
  | .seekTest => some { s with producer := if s.isSeeking then .seekLock else .doneTest }
  | .seekLock => if s.seeker.holdsLock then none else some { s with producer := .seekBranch }
  | .seekBranch =>
      some { s with producer := if s.seeksToEnd cfg then .seekEnd .video else .seekBox }
  | .seekEnd .video =>
      some { s.onGroup .video (·.notifyStreamdone) with producer := .seekEnd .audio }
  | .seekEnd .audio =>
      some { s.onGroup .audio (·.notifyStreamdone) with producer := .seekEndFlag }
  | .seekEndFlag =>
      some { s with
        isStreamDone := true
        seeksServed := s.seeksServed + 1
        seekMark := s.reads.length
        servedTime := s.startTime
        servedToEnd := true
        producer := .seekClear .video }
  | .seekBox =>
      some { s with
        isStreamDone := false
        seeksServed := s.seeksServed + 1
        seekMark := s.reads.length
        servedTime := s.startTime
        servedToEnd := false
        producer := .seekClear .video }
  | .seekClear t =>
      if (s.reader t).holdsGroup then none
      else some { s.onGroup t (·.clearBuffer s.mSeekTimeUs) with producer := .seekDone t }
  | .seekDone t =>
      if (s.reader t).holdsGroup then none
      else some { s.onGroup t (·.notifySeekdone) with
        producer := match t with
          | .video => .seekClear .audio
          | .audio => .seekFinish }
  | .seekFinish =>
      some { s with isSeeking := false, seeker := s.seeker.signal, producer := .doneTest }
  | .doneTest => some { s with producer := if s.isStreamDone then .loopTest else .reading }
  | .push t p pc => (s.group t).bind fun g => pushStep s t g p pc
  | .pushError => (s.group .video).bind fun g => pushErrorStep s g
  | .publish .video =>
      some { s.onGroup .video (·.notifyStreamdone) with producer := .publish .audio }
  | .publish .audio =>
      some { s.onGroup .audio (·.notifyStreamdone) with producer := .publishFlag }
  | .publishFlag => some { s with isStreamDone := true, producer := .loopTest }
  | .exiting => some { s with mStarted := false, producer := .exited }

/-- Everything a step of the producer can do, one constructor for each place. -/
inductive Produces (cfg : Config) (s : State) : State → Prop where
  | loopTest (hPc : s.producer = .loopTest) :
      Produces cfg s { s with producer := if s.mStarted then .seekTest else .exiting }
  | seekTest (hPc : s.producer = .seekTest) :
      Produces cfg s { s with producer := if s.isSeeking then .seekLock else .doneTest }
  | seekLock (hPc : s.producer = .seekLock) (hFree : s.seeker.holdsLock = false) :
      Produces cfg s { s with producer := .seekBranch }
  | seekBranch (hPc : s.producer = .seekBranch) :
      Produces cfg s { s with producer := if s.seeksToEnd cfg then .seekEnd .video else .seekBox }
  | seekEndVideo (hPc : s.producer = .seekEnd .video) :
      Produces cfg s { s.onGroup .video (·.notifyStreamdone) with producer := .seekEnd .audio }
  | seekEndAudio (hPc : s.producer = .seekEnd .audio) :
      Produces cfg s { s.onGroup .audio (·.notifyStreamdone) with producer := .seekEndFlag }
  | seekEndFlag (hPc : s.producer = .seekEndFlag) :
      Produces cfg s { s with
        isStreamDone := true
        seeksServed := s.seeksServed + 1
        seekMark := s.reads.length
        servedTime := s.startTime
        servedToEnd := true
        producer := .seekClear .video }
  | seekBox (hPc : s.producer = .seekBox) :
      Produces cfg s { s with
        isStreamDone := false
        seeksServed := s.seeksServed + 1
        seekMark := s.reads.length
        servedTime := s.startTime
        servedToEnd := false
        producer := .seekClear .video }
  | seekClear {t : Track} (hPc : s.producer = .seekClear t)
      (hFree : (s.reader t).holdsGroup = false) :
      Produces cfg s
        { s.onGroup t (·.clearBuffer s.mSeekTimeUs) with producer := .seekDone t }
  | seekDone {t : Track} : s.producer = .seekDone t → (s.reader t).holdsGroup = false →
      Produces cfg s { s.onGroup t (·.notifySeekdone) with
        producer := match t with
          | .video => .seekClear .audio
          | .audio => .seekFinish }
  | seekFinish (hPc : s.producer = .seekFinish) :
      Produces cfg s
        { s with isSeeking := false, seeker := s.seeker.signal, producer := .doneTest }
  | doneTest (hPc : s.producer = .doneTest) :
      Produces cfg s { s with producer := if s.isStreamDone then .loopTest else .reading }
  | push {t : Track} {p : Payload} {pc : PushPc} {g : PPMediaBufferGroup} {s' : State}
      (hPc : s.producer = .push t p pc) (hGroup : s.group t = some g)
      (hPush : pushStep s t g p pc = some s') : Produces cfg s s'
  | pushError {g : PPMediaBufferGroup} {s' : State} (hPc : s.producer = .pushError)
      (hGroup : s.group .video = some g) (hPush : pushErrorStep s g = some s') : Produces cfg s s'
  | publishVideo (hPc : s.producer = .publish .video) :
      Produces cfg s { s.onGroup .video (·.notifyStreamdone) with producer := .publish .audio }
  | publishAudio (hPc : s.producer = .publish .audio) :
      Produces cfg s { s.onGroup .audio (·.notifyStreamdone) with producer := .publishFlag }
  | publishFlag (hPc : s.producer = .publishFlag) :
      Produces cfg s { s with isStreamDone := true, producer := .loopTest }
  | exiting (hPc : s.producer = .exiting) :
      Produces cfg s { s with mStarted := false, producer := .exited }

theorem produces_of_step {cfg : Config} {s s' : State} (hStep : producerStep cfg s = some s') :
    Produces cfg s s' := by
  cases hPc : s.producer with
  | off | reading | exited | crashed => simp [producerStep, hPc] at hStep
  | push t p pc =>
      simp only [producerStep, hPc, Option.bind_eq_some_iff] at hStep
      obtain ⟨g, hGroup, hPush⟩ := hStep
      exact .push hPc hGroup hPush
  | pushError =>
      simp only [producerStep, hPc, Option.bind_eq_some_iff] at hStep
      obtain ⟨g, hGroup, hPush⟩ := hStep
      exact .pushError hPc hGroup hPush
  | seekLock =>
      simp only [producerStep, hPc] at hStep
      split_ifs at hStep with hHolds
      cases hStep
      exact .seekLock hPc (Bool.eq_false_iff.mpr hHolds)
  | seekClear t =>
      simp only [producerStep, hPc] at hStep
      split_ifs at hStep with hHolds
      cases hStep
      exact .seekClear hPc (Bool.eq_false_iff.mpr hHolds)
  | seekDone t =>
      simp only [producerStep, hPc] at hStep
      split_ifs at hStep with hHolds
      cases hStep
      exact .seekDone hPc (Bool.eq_false_iff.mpr hHolds)
  | seekEnd t =>
      cases t with
      | video =>
          simp only [producerStep, hPc] at hStep
          cases hStep
          exact .seekEndVideo hPc
      | audio =>
          simp only [producerStep, hPc] at hStep
          cases hStep
          exact .seekEndAudio hPc
  | publish t =>
      cases t with
      | video =>
          simp only [producerStep, hPc] at hStep
          cases hStep
          exact .publishVideo hPc
      | audio =>
          simp only [producerStep, hPc] at hStep
          cases hStep
          exact .publishAudio hPc
  | loopTest =>
      simp only [producerStep, hPc] at hStep
      cases hStep
      exact .loopTest hPc
  | seekTest =>
      simp only [producerStep, hPc] at hStep
      cases hStep
      exact .seekTest hPc
  | seekBranch =>
      simp only [producerStep, hPc] at hStep
      cases hStep
      exact .seekBranch hPc
  | seekEndFlag =>
      simp only [producerStep, hPc] at hStep
      cases hStep
      exact .seekEndFlag hPc
  | seekBox =>
      simp only [producerStep, hPc] at hStep
      cases hStep
      exact .seekBox hPc
  | seekFinish =>
      simp only [producerStep, hPc] at hStep
      cases hStep
      exact .seekFinish hPc
  | doneTest =>
      simp only [producerStep, hPc] at hStep
      cases hStep
      exact .doneTest hPc
  | publishFlag =>
      simp only [producerStep, hPc] at hStep
      cases hStep
      exact .publishFlag hPc
  | exiting =>
      simp only [producerStep, hPc] at hStep
      cases hStep
      exact .exiting hPc

/-- The call of `push_buffer`. Without a group or without data nothing
happens. -/
def enterPush (s : State) (t : Track) (p : Payload) : ProducerPc :=
  if p.data = [] || (s.group t).isNone then .loopTest else .push t p .enter

/-- What `threadEntry` does with a video sample, once converted. -/
def handleVideo (s : State) (sample : Sample) : Converted → ProducerPc
  | .written dst => enterPush s .video ⟨dst, sample.startTime, sample.isSync, s.reads.length⟩
  | .error _ => if (s.group .video).isNone then .loopTest else .pushError
  | .checkFailed | .fault => .crashed

/-- Where the producer goes with a result. A sample of any other stream takes
the way of an error. -/
def handleRead (cfg : Config) (s : State) (fuel : Nat) : ReadResult → Option ProducerPc
  | .sample sample =>
      if sample.streamIndex = cfg.mVideoTrackID then
        (constructNalus cfg sample.buffer sample.bufferLength fuel).map (handleVideo s sample)
      else if sample.streamIndex = cfg.mAudioTrackID then
        some (enterPush s .audio ⟨sample.buffer.read 0 sample.bufferLength, sample.startTime,
          sample.isSync, s.reads.length⟩)
      else some (.publish .video)
  | .wouldBlock => some .loopTest
  | .streamEnd | .error _ => some (.publish .video)

def readSampleStep (cfg : Config) (s : State) (result : ReadResult) (fuel : Nat) : Option State :=
  match s.producer with
  | .reading => (handleRead cfg s fuel result).map fun pc =>
      { s with reads := s.reads ++ [result], producer := pc }
  | _ => none

theorem readSampleStep_cases {cfg : Config} {s s' : State} {result : ReadResult} {fuel : Nat}
    (hStep : readSampleStep cfg s result fuel = some s') :
    s.producer = .reading ∧ ∃ pc, handleRead cfg s fuel result = some pc ∧
      s' = { s with reads := s.reads ++ [result], producer := pc } := by
  unfold readSampleStep at hStep
  split at hStep
  case h_2 => cases hStep
  case h_1 hPc =>
    obtain ⟨pc, hNext, rfl⟩ := Option.map_eq_some_iff.mp hStep
    exact ⟨hPc, pc, hNext, rfl⟩

/-- Each step of `seekTo` after the time has been stored. -/
def seekerStep (s : State) : Option State :=
  match s.seeker with
  | .idle => none
  | .enter =>
      if s.producer.holdsLock then none
      else some { s with isSeeking := true, seeker := .notify .video }
  | .notify t =>
      if s.groupFree t then
        some { s.onGroup t (·.notifySeekstart) with
          producer := s.producer.signal t
          seeker := match t with
            | .video => .notify .audio
            | .audio => .wait }
      else none
  | .wait => some { s with seeker := .asleep false }
  | .asleep signalled =>
      if signalled && !s.producer.holdsLock then some { s with seeker := .idle } else none

/-- Everything a step of the caller of `seekTo` can do. -/
inductive Seeks (s : State) : State → Prop where
  | enter (hSeeker : s.seeker = .enter) (hFree : s.producer.holdsLock = false) :
      Seeks s { s with isSeeking := true, seeker := .notify .video }
  | notify {t : Track} : s.seeker = .notify t → s.groupFree t = true →
      Seeks s { s.onGroup t (·.notifySeekstart) with
        producer := s.producer.signal t
        seeker := match t with
          | .video => .notify .audio
          | .audio => .wait }
  | wait (hSeeker : s.seeker = .wait) : Seeks s { s with seeker := .asleep false }
  | wake (hSeeker : s.seeker = .asleep true) (hFree : s.producer.holdsLock = false) :
      Seeks s { s with seeker := .idle }

theorem seeks_of_step {s s' : State} (hStep : seekerStep s = some s') : Seeks s s' := by
  cases hSeeker : s.seeker with
  | idle => simp [seekerStep, hSeeker] at hStep
  | enter =>
      simp only [seekerStep, hSeeker] at hStep
      split_ifs at hStep with hHolds
      cases hStep
      exact .enter hSeeker (Bool.eq_false_iff.mpr hHolds)
  | notify t =>
      simp only [seekerStep, hSeeker] at hStep
      split_ifs at hStep with hFree
      cases hStep
      exact .notify hSeeker hFree
  | wait =>
      simp only [seekerStep, hSeeker] at hStep
      cases hStep
      exact .wait hSeeker
  | asleep signalled =>
      simp only [seekerStep, hSeeker] at hStep
      split_ifs at hStep with hWoken
      cases hStep
      simp only [Bool.and_eq_true, Bool.not_eq_true'] at hWoken
      obtain ⟨rfl, hFree⟩ := hWoken
      exact .wake hSeeker hFree

/-- The tracks for which `start` creates a group. -/
def Config.present (cfg : Config) : Track → Bool
  | .video => cfg.mVideoTrackID < cfg.mTrackCount
  | .audio => cfg.mAudioTrackID < cfg.mTrackCount && cfg.mAudioTrackID ≠ cfg.mVideoTrackID

/-- A file with a video and an audio track. -/
def twoTracks : Config where
  mTrackCount := 2
  mVideoTrackID := 0
  mAudioTrackID := 1
  mNALLengthSize := 4
  mDurationTimeUs := 60000

/-- A key frame of one unit on the video track of `twoTracks`. -/
def keyFrame : Sample where
  buffer := fun i => [0, 0, 0, 1, 101].getD i 0
  bufferLength := 5
  fits := by decide
  streamIndex := 0
  startTime := 40
  isSync := true

/-- `start` runs under `mLock` from its test to the creation of the thread. -/
def startStep (cfg : Config) (s : State) : Option State :=
  match s.control with
  | .idle =>
      if !s.lockFree then none
      else if s.mStarted || cfg.mTrackCount = 0 then some s
      else some { s with
        mStarted := true
        group := fun t => if cfg.present t then some (newGroup t) else s.group t
        producer := .loopTest }
  | _ => none

/-- The test of `mStarted` in `stop` and the store behind it. -/
def stopStep (s : State) : Option State :=
  match s.control with
  | .idle => some (if s.mStarted then { s with mStarted := false, control := .notifyStop .video } else s)
  | _ => none

def controlStep (s : State) : Option State :=
  match s.control with
  | .idle => none
  | .notifyStop t =>
      some { s.onGroup t (·.notifyStop) with
        producer := s.producer.signal t
        control := match t with
          | .video => .notifyStop .audio
          | .audio => .join }
  | .join => if s.producer = .exited then some { s with control := .delete .video } else none
  | .delete t =>
      if s.groupFree t then
        some { s with
          group := Function.update s.group t none
          held := Function.update s.held t []
          orphans := Function.update s.orphans t (s.orphans t ++ s.held t)
          control := match t with
            | .video => .delete .audio
            | .audio => .idle }
      else none

/-- Everything a step of the caller of `stop` can do. -/
inductive Controls (s : State) : State → Prop where
  | notifyStop {t : Track} : s.control = .notifyStop t →
      Controls s { s.onGroup t (·.notifyStop) with
        producer := s.producer.signal t
        control := match t with
          | .video => .notifyStop .audio
          | .audio => .join }
  | join (hControl : s.control = .join) (hExited : s.producer = .exited) :
      Controls s { s with control := .delete .video }
  | delete {t : Track} : s.control = .delete t → s.groupFree t = true →
      Controls s { s with
        group := Function.update s.group t none
        held := Function.update s.held t []
        orphans := Function.update s.orphans t (s.orphans t ++ s.held t)
        control := match t with
          | .video => .delete .audio
          | .audio => .idle }

theorem controls_of_step {s s' : State} (hStep : controlStep s = some s') : Controls s s' := by
  cases hControl : s.control with
  | idle => simp [controlStep, hControl] at hStep
  | notifyStop t =>
      simp only [controlStep, hControl] at hStep
      cases hStep
      exact .notifyStop hControl
  | join =>
      simp only [controlStep, hControl] at hStep
      split_ifs at hStep with hExited
      cases hStep
      exact .join hControl hExited
  | delete t =>
      simp only [controlStep, hControl] at hStep
      split_ifs at hStep with hFree
      cases hStep
      exact .delete hControl hFree

/-- `readVideoSample` and `readAudioSample` up to the call of `pop_buffer`. -/
def readStep (s : State) (t : Track) : Option State :=
  match s.reader t with
  | .idle | .returned _ =>
      some (s.setReader t (if (s.group t).isSome then .enter else .returned .errorIo))
  | _ => none

/-- One step inside `pop_buffer`. -/
def popStep (s : State) (t : Track) (g : PPMediaBufferGroup) : Option State :=
  let goto (pc : ReaderPc) : Option State := some (s.setReader t pc)
  match s.reader t with
  | .idle | .returned _ | .dangling => none
  | .enter | .asleep => if s.producer.holdsGroup t then none else goto .whileTest
  | .whileTest =>
      if g.mStartBuffering && !g.mIsStreamDone && !g.mIsStopping then goto .asleep
      else goto .stopTest
  | .stopTest => if g.mIsStopping then goto (.returned .endOfStream) else goto .headTest
  | .headTest =>
      match g.frames with
      | [] => goto .doneTest
      | b :: rest =>
          some { (s.onGroup t (·.takeFirst true rest)).setReader t (.returned (.frame b)) with
            held := Function.update s.held t (s.held t ++ [b])
            delivered := Function.update s.delivered t (s.delivered t ++ [g.view b]) }
  | .doneTest => if g.mIsStreamDone then goto (.returned .endOfStream) else goto .rearm
  | .rearm =>
      some ((s.onGroup t fun g => { g with mStartBuffering := true }).setReader t .whileTest)

def readerStep (s : State) (t : Track) : Option State :=
  match s.group t with
  | some g => popStep s t g
  | none =>
      match s.reader t with
      | .idle | .returned _ | .dangling => none
      | _ => some (s.setReader t .dangling)

/-- The last release of a popped frame, with the signal at its end. -/
def releaseStep (s : State) (t : Track) (index : Nat) : Option State :=
  (s.held t)[index]?.map fun b =>
    { s.onGroup t (·.signalBufferReturned b) with
      held := Function.update s.held t ((s.held t).eraseIdx index)
      producer := s.producer.signal t }

inductive Act where
  | producer
  | readSample (result : ReadResult) (fuel : Nat)
  | spuriousWake
  | seekTo (seekTimeUs : Int)
  | seeker
  | start
  | stop
  | control
  | read (t : Track)
  | reader (t : Track)
  | release (t : Track) (index : Nat)
  | releaseOrphan (t : Track) (index : Nat)

/-- The action is a call of `seekTo`. -/
def Act.isSeekTo : Act → Bool
  | .seekTo _ => true
  | _ => false

/-- The steps of a process that has not crashed. A step of the producer from
`reading` is a result of `readSampleEx2` with a bound on the passes of the
conversion. The producer may wake without a signal. -/
def liveStep (cfg : Config) (s : State) : Act → Option State
  | .producer => producerStep cfg s
  | .readSample result fuel => readSampleStep cfg s result fuel
  | .spuriousWake =>
      match s.producer with
      | .push t p (.asleep _) => some { s with producer := .push t p (.asleep true) }
      | _ => none
  | .seekTo seekTimeUs =>
      match s.seeker with
      | .idle => some { s with mSeekTimeUs := seekTimeUs, seeker := .enter }
      | _ => none
  | .seeker => seekerStep s
  | .start => startStep cfg s
  | .stop => stopStep s
  | .control => controlStep s
  | .read t => readStep s t
  | .reader t => readerStep s t
  | .release t index => releaseStep s t index
  | .releaseOrphan t index =>
      if index < (s.orphans t).length then
        some { s with orphans := Function.update s.orphans t ((s.orphans t).eraseIdx index) }
      else none

def step (cfg : Config) (s : State) (act : Act) : Option State :=
  if s.producer = .crashed then none else liveStep cfg s act

theorem seekTo_cases {cfg : Config} {s s' : State} {seekTimeUs : Int}
    (hStep : liveStep cfg s (.seekTo seekTimeUs) = some s') :
    s.seeker = .idle ∧ s' = { s with mSeekTimeUs := seekTimeUs, seeker := .enter } := by
  simp only [liveStep] at hStep
  split at hStep
  case h_2 => cases hStep
  case h_1 hIdle =>
    cases hStep
    exact ⟨hIdle, rfl⟩

end Meet.PPExtractor
