import Meet.PPExtractor.Fresh
import Meet.PPExtractor.StreamDone

/-! The choice of the tracks in the constructor of `PPExtractor`, and what becomes of
the streams that are not chosen. -/
namespace Meet.PPExtractor

inductive StreamType where
  | video
  | audio
  | other (code : Int)
deriving DecidableEq, Repr

inductive StreamSubType where
  | videoAvc
  | audioAac
  | audioMp3
  | audioWma
  | other (code : Int)
deriving DecidableEq, Repr

/-- `PPBOX_StreamInfoEx`. What lies behind the `formatSize` bytes of the format can be
read, too. -/
structure StreamInfo where
  type : StreamType
  subType : StreamSubType
  width : Nat
  height : Nat
  formatSize : Nat
  formatBuffer : Memory

/-- `ANDROID_PLATFORM < 16` and the answers of `AudioSystemWrapper`. -/
structure AudioSystem where
  before16 : Bool
  canAudioHWDecode : Bool
  canAudioHWSBR : Bool

/-- What ppbox reports of an opened stream. The number of streams is a 32-bit
value. -/
structure PPBox where
  streams : List StreamInfo
  duration : Nat
  audioSystem : AudioSystem
  fits : streams.length < 4294967296

def kSamplingRate : List Nat :=
  [96000, 88200, 64000, 48000, 44100, 32000, 24000, 22050, 16000, 12000, 11025, 8000, 7350]

def kChannelCount : List Nat := [0, 1, 2]

/-- What `parseAOTs` stores. A value is `none` when it is never assigned or lies
behind the end of its table. -/
structure AudioConfig where
  sampleRate : Option Nat
  channelCount : Option Nat
deriving DecidableEq, Repr

/-- What `parseAOTs` does when it has logged the configuration. The result is `none` where
it returns false. For an extension rate that is out of range it returns an error value,
which is true. -/
def parseAOTs (system : AudioSystem) (info : StreamInfo) : Option AudioConfig :=
  let audioConfig (i : Nat) : Nat := (info.formatBuffer i).toNat
  let audioObjectType := audioConfig 0 >>> 3
  let samplingFrequencyIndex := ((audioConfig 0 &&& 7) <<< 1) + (audioConfig 1 >>> 7)
  let channelConfiguration := (audioConfig 1 &&& 0x78) >>> 3
  let parsed (sampleRate : Option Nat) : Option AudioConfig :=
    some ⟨sampleRate, kChannelCount[channelConfiguration]?⟩
  let syncExtensionType := (audioConfig 2 <<< 3) + (audioConfig 3 >>> 5)
  let extensionSamplingFrequencyIndex := (audioConfig 4 &&& 0x7f) >>> 3
  if audioObjectType = 31 then none
  else if samplingFrequencyIndex = 15 then none
  else if system.before16 && system.canAudioHWDecode && !system.canAudioHWSBR then
    parsed kSamplingRate[samplingFrequencyIndex]?
  else if audioObjectType = 5 then parsed none
  else if 4 ≤ info.formatSize ∧ syncExtensionType = 0x2b7 ∧ audioConfig 3 &&& 0x1f = 5 ∧
      audioConfig 4 >>> 7 = 1 then
    if 12 < extensionSamplingFrequencyIndex then parsed none
    else parsed kSamplingRate[extensionSamplingFrequencyIndex]?
  else parsed kSamplingRate[samplingFrequencyIndex]?

def mediaMimetypeVideoAvc : List Char := ['v', 'i', 'd', 'e', 'o', '/', 'a', 'v', 'c']

def mediaMimetypeAudioAac : List Char :=
  ['a', 'u', 'd', 'i', 'o', '/', 'm', 'p', '4', 'a', '-', 'l', 'a', 't', 'm']

/-- The keys that `getTrackMetaData` sets. -/
structure MetaData where
  kKeyMIMEType : Option (List Char) := none
  kKeyAVCC : Option (List UInt8) := none
  kKeyWidth : Option Nat := none
  kKeyHeight : Option Nat := none
  kKeyDuration : Option Nat := none
  kKeyVideoProfile : Option Nat := none
  kKeyVideoLevel : Option Nat := none
  kKeySampleRate : Option Nat := none
  kKeyChannelCount : Option Nat := none
  kKeyESDS : Option (List UInt8) := none

/-- The pseudo descriptor header. The store of `bufferSizeDB` keeps the wrong half of
its value, which is zero. -/
def esdsData (info : StreamInfo) : List UInt8 :=
  [0x3, 0x19, 0x1, 0, 0x0, 0x4, 0x11, 0x40, 0x15, 0, 0, 0, 0, 0, 0x87, 0x28, 0, 0, 0x73, 0xe8,
    0x5, 0x2, info.formatBuffer 0, info.formatBuffer 1, 0x6, 0x1, 0x2]

/-- The metadata of a stream. It stays empty for what is not supported and is null
when the audio configuration is rejected. There is no result where the call never
returns. -/
def streamMetaData (box : PPBox) (info : StreamInfo) : Option (Option MetaData) :=
  match info.type with
  | .video =>
      if info.subType = .videoAvc then
        some (some {
          kKeyMIMEType := some mediaMimetypeVideoAvc
          kKeyAVCC := some (info.formatBuffer.read 0 info.formatSize)
          kKeyWidth := some info.width
          kKeyHeight := some info.height
          kKeyDuration := some (box.duration * 1000)
          kKeyVideoProfile := some (info.formatBuffer 0).toNat
          kKeyVideoLevel := some (info.formatBuffer 1).toNat })
      else some (some {})
  | .audio =>
      if info.subType = .audioAac then
        -- `parseAOTs` logs the configuration first, and its loop counts in a byte.
        if 256 ≤ info.formatSize then none
        else some ((parseAOTs box.audioSystem info).map fun config => {
          kKeyMIMEType := some mediaMimetypeAudioAac
          kKeySampleRate := config.sampleRate
          kKeyChannelCount := config.channelCount
          kKeyDuration := some (box.duration * 1000)
          kKeyESDS := some (esdsData info) })
      else some (some {})
  | .other _ => some (some {})

/-- `(size_t)-1`. -/
def absent : Nat := 4294967295

/-- The members that the constructor fills. -/
structure Tracks extends Config where
  mVideoFormat : Option MetaData
  mAudioFormat : Option MetaData

def getTrackMetaData (box : PPBox) (x : Tracks) (index : Nat) : Option (Option MetaData) :=
  if x.mTrackCount ≤ index then some none
  else if x.mAudioTrackID ≠ absent ∧ x.mAudioTrackID = index ∧ x.mAudioFormat.isSome then
    some x.mAudioFormat
  else if x.mVideoTrackID ≠ absent ∧ x.mVideoTrackID = index ∧ x.mVideoFormat.isSome then
    some x.mVideoFormat
  else
    match box.streams[index]? with
    | none => some none
    | some info => streamMetaData box info

/-- The strings agree in their first characters, whatever their case. -/
def strncasecmp (a b : List Char) (n : Nat) : Bool :=
  (a.take n).map Char.toLower == (b.take n).map Char.toLower

/-- What the constructor takes from the configuration of a video track; it is `none`
when one of its checks fails. -/
def nalLengthSize (avcc : List UInt8) : Option Nat :=
  if avcc.length < 7 then none
  else if avcc.getD 0 0 ≠ 1 then none
  else some (1 + (avcc.getD 4 0 &&& 3).toNat)

/-- A pass of the loop of the constructor; `none` when a check fails and the process
is gone, or when the pass never ends. -/
def addTrack (box : PPBox) (x : Tracks) (i : Nat) : Option Tracks :=
  let withDuration (x : Tracks) : Tracks :=
    if x.mDurationTimeUs = 0 then { x with mDurationTimeUs := box.duration } else x
  match getTrackMetaData box x i with
  | none => none
  | some none => some x
  | some (some data) =>
      data.kKeyMIMEType.bind fun mime =>
        if strncasecmp mime ['v', 'i', 'd', 'e', 'o', '/'] 6 then
          (data.kKeyAVCC.bind nalLengthSize).map fun size =>
            withDuration { x with
              mVideoTrackID := i, mVideoFormat := some data, mNALLengthSize := size }
        else if strncasecmp mime ['a', 'u', 'd', 'i', 'o', '/'] 6 then
          some (withDuration { x with mAudioTrackID := i, mAudioFormat := some data })
        else some (withDuration x)

/-- The first passes of the loop. Without a video track `mNALLengthSize` is never
assigned and never read. -/
def addTracks (box : PPBox) : Nat → Option Tracks
  | 0 => some {
      mTrackCount := box.streams.length
      mVideoTrackID := absent
      mAudioTrackID := absent
      mNALLengthSize := 0
      mDurationTimeUs := 0
      mVideoFormat := none
      mAudioFormat := none }
  | i + 1 => (addTracks box i).bind fun x => addTrack box x i

/-- The constructor. -/
def Config.new (box : PPBox) : Option Config :=
  (addTracks box box.streams.length).map Tracks.toConfig

namespace StreamInfo

def IsAvc (info : StreamInfo) : Prop := info.type = .video ∧ info.subType = .videoAvc

def IsAac (info : StreamInfo) : Prop := info.type = .audio ∧ info.subType = .audioAac

/-- The configuration passes the checks of the constructor. -/
def Configured (info : StreamInfo) : Prop := 7 ≤ info.formatSize ∧ info.formatBuffer 0 = 1

/-- The configuration is logged to its end and not rejected by `parseAOTs`. -/
def Accepted (box : PPBox) (info : StreamInfo) : Prop :=
  info.formatSize < 256 ∧ (parseAOTs box.audioSystem info).isSome = true

theorem IsAvc.not_isAac {info : StreamInfo} (h : info.IsAvc) : ¬ info.IsAac := by
  intro hAac
  simpa [h.1] using hAac.1

end StreamInfo

section Construction

variable {box : PPBox} {x x' : Tracks} {i : Nat} {info : StreamInfo}

theorem nalLengthSize_isSome (info : StreamInfo) :
    (nalLengthSize (info.formatBuffer.read 0 info.formatSize)).isSome = true ↔
      info.Configured := by
  unfold nalLengthSize StreamInfo.Configured
  rw [Memory.read_length]
  by_cases hSize : info.formatSize < 7
  · simp only [hSize, if_true, Option.isSome_none, Bool.false_eq_true, false_iff, not_and]
    omega
  · have hFirst : (info.formatBuffer.read 0 info.formatSize).getD 0 0 = info.formatBuffer 0 := by
      simp [Memory.read, List.getD_eq_getElem?_getD, List.getElem?_range (show 0 < info.formatSize by omega)]
    rw [if_neg hSize, hFirst]
    by_cases hVersion : info.formatBuffer 0 = 1
    · simp [hVersion]
      omega
    · simp [hVersion]

/-- What a pass does with a stream it has no metadata of yet. -/
theorem addTrack_cases (hData : getTrackMetaData box x i = streamMetaData box info) :
    (info.IsAvc ∧ info.Configured ∧ ∃ x', addTrack box x i = some x' ∧
      x'.mVideoTrackID = i ∧ x'.mAudioTrackID = x.mAudioTrackID ∧
      x'.mTrackCount = x.mTrackCount) ∨
    (info.IsAac ∧ info.Accepted box ∧ ∃ x', addTrack box x i = some x' ∧
      x'.mVideoTrackID = x.mVideoTrackID ∧ x'.mAudioTrackID = i ∧
      x'.mTrackCount = x.mTrackCount) ∨
    (info.IsAac ∧ ¬ info.Accepted box ∧ addTrack box x i = some x) ∨
    ((info.IsAvc → ¬ info.Configured) ∧ (info.IsAac → 256 ≤ info.formatSize) ∧
      addTrack box x i = none) := by
  have hVideo : strncasecmp mediaMimetypeVideoAvc ['v', 'i', 'd', 'e', 'o', '/'] 6 = true := by decide
  have hAudio : strncasecmp mediaMimetypeAudioAac ['v', 'i', 'd', 'e', 'o', '/'] 6 = false ∧
      strncasecmp mediaMimetypeAudioAac ['a', 'u', 'd', 'i', 'o', '/'] 6 = true := by decide
  unfold addTrack
  rw [hData]
  unfold streamMetaData
  cases hType : info.type with
  | other code => simp [StreamInfo.IsAvc, StreamInfo.IsAac, hType]
  | video =>
      by_cases hSub : info.subType = .videoAvc
      · cases hSize : nalLengthSize (info.formatBuffer.read 0 info.formatSize) with
        | none =>
            have hConfigured : ¬ info.Configured := by
              rw [← nalLengthSize_isSome, hSize]
              simp
            refine Or.inr (Or.inr (Or.inr ⟨fun _ => hConfigured, ?_, ?_⟩))
            · simp [StreamInfo.IsAac, hType]
            · simp [hSub, hVideo, hSize]
        | some size =>
            have hConfigured : info.Configured := by
              rw [← nalLengthSize_isSome, hSize]
              rfl
            refine Or.inl ⟨⟨hType, hSub⟩, hConfigured, ?_⟩
            simp only [hSub, if_true, hVideo, hSize, Option.bind_some, Option.map_some]
            refine ⟨_, rfl, ?_⟩
            split_ifs <;> exact ⟨rfl, rfl, rfl⟩
      · simp [StreamInfo.IsAvc, StreamInfo.IsAac, hType, hSub]
  | audio =>
      by_cases hSub : info.subType = .audioAac
      · by_cases hLong : 256 ≤ info.formatSize
        · refine Or.inr (Or.inr (Or.inr ⟨fun hAvc => ?_, fun _ => hLong, by simp [hSub, hLong]⟩))
          exact absurd ⟨hType, hSub⟩ hAvc.not_isAac
        · have hShort : info.formatSize < 256 := Nat.lt_of_not_le hLong
          cases hParsed : parseAOTs box.audioSystem info with
          | none =>
              refine Or.inr (Or.inr (Or.inl ⟨⟨hType, hSub⟩, ?_, ?_⟩))
              · simp [StreamInfo.Accepted, hParsed]
              · simp [hSub, hLong]
          | some config =>
              refine Or.inr (Or.inl ⟨⟨hType, hSub⟩, ?_, ?_⟩)
              · simp [StreamInfo.Accepted, hShort, hParsed]
              · simp only [hSub, if_true, if_neg hLong, Option.map_some, Option.bind_some, hAudio]
                refine ⟨_, rfl, ?_⟩
                split_ifs <;> exact ⟨rfl, rfl, rfl⟩
      · simp [StreamInfo.IsAvc, StreamInfo.IsAac, hType, hSub]

/-- What the first `n` passes have chosen: tracks that can be played, if there were
any, and no check has failed. -/
structure Chosen (box : PPBox) (n : Nat) (x : Tracks) : Prop where
  count : x.mTrackCount = box.streams.length
  video : x.mVideoTrackID = absent ∨ x.mVideoTrackID < n ∧
    ∃ info ∈ box.streams[x.mVideoTrackID]?, info.IsAvc
  audio : x.mAudioTrackID = absent ∨ x.mAudioTrackID < n ∧
    ∃ info ∈ box.streams[x.mAudioTrackID]?, info.IsAac ∧ info.Accepted box
  videoFound : ∀ k < n, ∀ info ∈ box.streams[k]?, info.IsAvc →
    x.mVideoTrackID ≠ absent ∧ info.Configured
  audioFound : ∀ k < n, ∀ info ∈ box.streams[k]?, info.IsAac → info.Accepted box →
    x.mAudioTrackID ≠ absent

theorem Chosen.data {n : Nat} (h : Chosen box n x) (hStream : box.streams[n]? = some info) :
    getTrackMetaData box x n = streamMetaData box info ∧ n ≠ absent := by
  have hFits := box.fits
  have hInside : n < box.streams.length := (List.getElem?_eq_some_iff.mp hStream).1
  have hVideo : ¬ (x.mVideoTrackID ≠ absent ∧ x.mVideoTrackID = n ∧ x.mVideoFormat.isSome) := by
    rintro ⟨hSome, hHere, _⟩
    have := (h.video.resolve_left hSome).1
    omega
  have hAudio : ¬ (x.mAudioTrackID ≠ absent ∧ x.mAudioTrackID = n ∧ x.mAudioFormat.isSome) := by
    rintro ⟨hSome, hHere, _⟩
    have := (h.audio.resolve_left hSome).1
    omega
  refine ⟨?_, by unfold absent; omega⟩
  unfold getTrackMetaData
  rw [if_neg (by rw [h.count]; omega), if_neg hAudio, if_neg hVideo, hStream]

theorem chosen_addTracks {n : Nat} (hLength : n ≤ box.streams.length)
    (h : addTracks box n = some x) : Chosen box n x := by
  induction n generalizing x with
  | zero =>
      obtain rfl := Option.some.inj h
      exact ⟨rfl, Or.inl rfl, Or.inl rfl, by simp, by simp⟩
  | succ n ih =>
      obtain ⟨before, hBefore, hTrack⟩ := Option.bind_eq_some_iff.mp h
      have hChosen := ih (by omega) hBefore
      obtain ⟨info, hStream⟩ : ∃ info, box.streams[n]? = some info :=
        ⟨_, List.getElem?_eq_getElem (by omega)⟩
      obtain ⟨hData, hAbsent⟩ := hChosen.data hStream
      have hOlder : ∀ k < n + 1, ∀ other ∈ box.streams[k]?, k < n ∨ other = info := by
        intro k hLess other hOther
        by_cases hHere : k = n
        · subst hHere
          exact Or.inr (Option.some.inj (hOther.symm.trans hStream))
        · omega
      rcases addTrack_cases hData with ⟨hAvc, hConfigured, x', hNext, hVideo, hAudio, hCount⟩ |
        ⟨hAac, hAccepted, x', hNext, hVideo, hAudio, hCount⟩ | ⟨hAac, hRejected, hNext⟩ | ⟨_, _, hNext⟩
      · obtain rfl : x' = x := Option.some.inj (hNext.symm.trans hTrack)
        refine ⟨hCount.trans hChosen.count, Or.inr ?_, ?_, fun k hLess other hOther hKind => ?_,
          fun k hLess other hOther hKind hGood => ?_⟩
        · rw [hVideo]
          exact ⟨by omega, info, hStream, hAvc⟩
        · rw [hAudio]
          exact hChosen.audio.imp_right (And.imp_left (by omega))
        · rw [hVideo]
          rcases hOlder k hLess other hOther with hOld | rfl
          · exact ⟨hAbsent, (hChosen.videoFound k hOld other hOther hKind).2⟩
          · exact ⟨hAbsent, hConfigured⟩
        · rw [hAudio]
          rcases hOlder k hLess other hOther with hOld | rfl
          · exact hChosen.audioFound k hOld other hOther hKind hGood
          · exact absurd hKind hAvc.not_isAac
      · obtain rfl : x' = x := Option.some.inj (hNext.symm.trans hTrack)
        refine ⟨hCount.trans hChosen.count, ?_, Or.inr ?_, fun k hLess other hOther hKind => ?_,
          fun k hLess other hOther hKind hGood => ?_⟩
        · rw [hVideo]
          exact hChosen.video.imp_right (And.imp_left (by omega))
        · rw [hAudio]
          exact ⟨by omega, info, hStream, hAac, hAccepted⟩
        · rw [hVideo]
          rcases hOlder k hLess other hOther with hOld | rfl
          · exact hChosen.videoFound k hOld other hOther hKind
          · exact absurd hAac hKind.not_isAac
        · rw [hAudio]
          exact hAbsent
      · obtain rfl : before = x := Option.some.inj (hNext.symm.trans hTrack)
        refine ⟨hChosen.count, hChosen.video.imp_right (And.imp_left (by omega)),
          hChosen.audio.imp_right (And.imp_left (by omega)), fun k hLess other hOther hKind => ?_,
          fun k hLess other hOther hKind hGood => ?_⟩
        · rcases hOlder k hLess other hOther with hOld | rfl
          · exact hChosen.videoFound k hOld other hOther hKind
          · exact absurd hAac hKind.not_isAac
        · rcases hOlder k hLess other hOther with hOld | rfl
          · exact hChosen.audioFound k hOld other hOther hKind hGood
          · exact absurd hGood hRejected
      · simp [hNext] at hTrack

/-- The loop goes through when every stream can be handled. -/
theorem addTracks_isSome {n : Nat} (hLength : n ≤ box.streams.length)
    (hGood : ∀ k < n, ∀ info ∈ box.streams[k]?,
      (info.IsAvc ∧ info.Configured) ∨ info.IsAac ∧ info.formatSize < 256) :
    (addTracks box n).isSome = true := by
  induction n with
  | zero => rfl
  | succ n ih =>
      obtain ⟨before, hBefore⟩ := Option.isSome_iff_exists.mp
        (ih (by omega) fun k hLess => hGood k (by omega))
      obtain ⟨info, hStream⟩ : ∃ info, box.streams[n]? = some info :=
        ⟨_, List.getElem?_eq_getElem (by omega)⟩
      have hData := ((chosen_addTracks (by omega) hBefore).data hStream).1
      unfold addTracks
      rw [hBefore, Option.bind_some]
      rcases addTrack_cases hData with ⟨_, _, x', hNext, _⟩ | ⟨_, _, x', hNext, _⟩ | ⟨_, _, hNext⟩ |
        ⟨hBad, hLong, _⟩
      · simp [hNext]
      · simp [hNext]
      · simp [hNext]
      · rcases hGood n (by omega) info hStream with ⟨hAvc, hConfigured⟩ | ⟨hAac, hShort⟩
        · exact absurd hConfigured (hBad hAvc)
        · exact absurd (hLong hAac) (Nat.not_le_of_lt hShort)

end Construction

/-- Samples come from the streams that ppbox reports, and no seek is asked for. -/
def SamplesOf (box : PPBox) (_ : State) : Act → Prop
  | .seekTo _ => False
  | .readSample (.sample sample) _ => sample.streamIndex < box.streams.length
  | _ => True

/-- The extractor and its groups take the stream for done only when a result has
ended it. -/
structure DoneAtEnd (s : State) : Prop where
  flag : s.isStreamDone = true → s.reads.any ReadResult.ends = true
  groups : ∀ t, ∀ g ∈ s.group t, g.mIsStreamDone = true → s.reads.any ReadResult.ends = true

/-- A sample of a stream that is not played is left out. -/
def LeavesOut (box : PPBox) (cfg : Config) (s : State) : Prop :=
  ∀ sample fuel s', step cfg s (.readSample (.sample sample) fuel) = some s' →
    sample.streamIndex < box.streams.length →
    sample.streamIndex ≠ cfg.mVideoTrackID → sample.streamIndex ≠ cfg.mAudioTrackID →
    s'.producer = .loopTest ∧ s'.group = s.group

/-- The extractor can be constructed, and streams that are not played do not end the
playback. -/
def PlaysOn (box : PPBox) : Prop :=
  ∃ cfg, Config.new box = some cfg ∧ ∀ acts s,
    Run (step cfg) (SamplesOf box) initial acts s → DoneAtEnd s ∧ LeavesOut box cfg s

/-- There are two streams, a video stream whose configuration passes the checks and an
audio stream whose configuration is accepted. -/
def OneOfEach (box : PPBox) : Prop :=
  ∃ v a : StreamInfo, (box.streams = [v, a] ∨ box.streams = [a, v]) ∧
    (v.IsAvc ∧ v.Configured) ∧ a.IsAac ∧ a.Accepted box

/-- The producer is about to publish the end. -/
def ProducerPc.publishes : ProducerPc → Bool
  | .publish _ | .publishFlag => true
  | _ => false

/-- Nothing is taken for done before a result has ended the stream. -/
structure OpenUntilEnd (s : State) : Prop where
  idle : s.seeker = .idle
  flag : s.reads.any ReadResult.ends = false → s.isStreamDone = false
  position : s.reads.any ReadResult.ends = false → s.producer.publishes = false
  groups : s.reads.any ReadResult.ends = false → ∀ t, DoneIs s.group t false

theorem openUntilEnd_initial : OpenUntilEnd initial := by
  constructor <;> simp [initial, ProducerPc.publishes, DoneIs]

theorem OpenUntilEnd.doneAtEnd {s : State} (h : OpenUntilEnd s) : DoneAtEnd s := by
  refine ⟨fun hDone => ?_, fun t g hGroup hDone => ?_⟩
  · by_contra hOpen
    simp [h.flag (by simpa using hOpen)] at hDone
  · by_contra hOpen
    simp [h.groups (by simpa using hOpen) t g hGroup] at hDone

section Runs

variable {cfg : Config} {s s' : State}

theorem publishes_signal (pc : ProducerPc) (t : Track) :
    (pc.signal t).publishes = pc.publishes := by
  rcases signal_cases pc t with hSame | ⟨t', p, signalled, rfl, hMoved⟩
  · rw [hSame]
  · rw [hMoved]
    rfl

/-- Steps that read nothing and change no flag of the end. -/
theorem OpenUntilEnd.same (h : OpenUntilEnd s) (hSame : SameRequests s s')
    (hPc : s.producer.publishes = false → s'.producer.publishes = false) : OpenUntilEnd s' := by
  refine ⟨hSame.seeker.trans h.idle, ?_, ?_, ?_⟩
  · rw [hSame.reads, hSame.isStreamDone]
    exact h.flag
  · rw [hSame.reads]
    exact fun hOpen => hPc (h.position hOpen)
  · rw [hSame.reads]
    exact fun hOpen t => (h.groups hOpen t).same hSame

theorem openUntilEnd_producer (hCoherent : Coherent s) (h : OpenUntilEnd s)
    (hStep : producerStep cfg s = some s') : OpenUntilEnd s' := by
  have hHolds : s.producer.holdsLock = false := by
    by_contra hHolds
    simpa [h.idle] using hCoherent.exclusive (by simpa using hHolds)
  have hMove : ∀ pc : ProducerPc, pc.publishes = false → OpenUntilEnd { s with producer := pc } :=
    fun pc hPc => h.same ⟨rfl, rfl, rfl, rfl, rfl, rfl, rfl, rfl, rfl, fun _ => rfl⟩ fun _ => hPc
  obtain ⟨_, hReads, hRequests⟩ := producerStep_requests hStep
  by_cases hEnd : s.reads.any ReadResult.ends = true
  · refine ⟨(hRequests hHolds).1.trans h.idle, ?_, ?_, ?_⟩ <;> simp [hReads, hEnd]
  · have hPosition := h.position (by simpa using hEnd)
    cases produces_of_step hStep with
    | publishVideo hPc | publishAudio hPc
    | publishFlag hPc => simp [hPc, ProducerPc.publishes] at hPosition
    | seekBranch hPc | seekEndVideo hPc | seekEndAudio hPc | seekEndFlag hPc | seekBox hPc
    | seekClear hPc hFree | seekDone hPc hFree | seekFinish hPc =>
        simp [hPc, ProducerPc.holdsLock] at hHolds
    | push hPc hGroup hPush =>
        rename_i t p pc g
        obtain ⟨hQuiet, hNext⟩ := pushStep_quiet hPush
        refine h.same hQuiet.toSameRequests fun _ => ?_
        rcases hNext with hNext | ⟨pc', hNext⟩ <;> simp [hNext, ProducerPc.publishes]
    | pushError hPc hGroup hPush =>
        rcases pushErrorStep_cases hPush with rfl | rfl <;> exact hMove _ rfl
    | seekLock hPc hFree =>
        exact hMove _ rfl
    | loopTest hPc | seekTest hPc | doneTest hPc =>
        refine hMove _ ?_
        split <;> rfl
    | exiting hPc =>
        exact h.same ⟨rfl, rfl, rfl, rfl, rfl, rfl, rfl, rfl, rfl, fun _ => rfl⟩ fun _ => rfl

theorem openUntilEnd_readSample {result : ReadResult} {fuel : Nat} (h : OpenUntilEnd s)
    (hGuard : FlagsGuard cfg s (.readSample result fuel))
    (hStep : readSampleStep cfg s result fuel = some s') : OpenUntilEnd s' := by
  obtain ⟨hPc, pc, hNext, rfl⟩ := readSampleStep_cases hStep
  refine ⟨h.idle, ?_, ?_, ?_⟩
  · simp only [List.any_append, Bool.or_eq_false_iff]
    exact fun hOpen => h.flag hOpen.1
  · simp only [List.any_append, Bool.or_eq_false_iff]
    intro hOpen
    rcases handleRead_cases hNext with rfl | rfl | rfl | ⟨rfl, _⟩ | ⟨t, p, rfl, _⟩
    · rfl
    · rfl
    · have hEnds := handleRead_publish hGuard hNext
      simp [hEnds] at hOpen
    · rfl
    · rfl
  · simp only [List.any_append, Bool.or_eq_false_iff]
    exact fun hOpen => h.groups hOpen.1

theorem openUntilEnd_step {act : Act} (hCoherent : Coherent s) (h : OpenUntilEnd s)
    (hSeek : act.isSeekTo = false)
    (hGuard : ∀ result fuel, act = .readSample result fuel → FlagsGuard cfg s act)
    (hStep : step cfg s act = some s') : OpenUntilEnd s' := by
  unfold step at hStep
  split_ifs at hStep
  cases act with
  | producer => exact openUntilEnd_producer hCoherent h hStep
  | readSample result fuel => exact openUntilEnd_readSample h (hGuard result fuel rfl) hStep
  | seekTo => simp [Act.isSeekTo] at hSeek
  | seeker => simp [liveStep, seekerStep, h.idle] at hStep
  | start =>
      rcases startStep_cases hStep with rfl | ⟨_, _, _, rfl⟩
      · exact h
      · refine ⟨h.idle, h.flag, fun _ => rfl, fun hOpen t g hGroup => ?_⟩
        dsimp only at hGroup
        split_ifs at hGroup
        · obtain rfl := Option.some.inj hGroup
          exact (Prod.mk.inj (newGroup_flags t)).1
        · exact h.groups hOpen t g hGroup
  | stop =>
      rcases stopStep_cases hStep with rfl | ⟨_, _, rfl⟩
      · exact h
      · exact h.same ⟨rfl, rfl, rfl, rfl, rfl, rfl, rfl, rfl, rfl, fun _ => rfl⟩ id
  | control =>
      cases controls_of_step hStep with
      | notifyStop hControl =>
          rename_i t
          refine h.same ⟨rfl, rfl, rfl, rfl, rfl, rfl, rfl, rfl, rfl, fun u => ?_⟩ ?_
          · exact s.onGroup_flags t u fun _ => rfl
          · simp [publishes_signal]
      | join hControl hExited =>
          exact h.same ⟨rfl, rfl, rfl, rfl, rfl, rfl, rfl, rfl, rfl, fun _ => rfl⟩ id
      | delete hControl hFree =>
          exact ⟨h.idle, h.flag, h.position, fun hOpen u => (h.groups hOpen u).delete⟩
  | spuriousWake | read | reader | release | releaseOrphan =>
      obtain ⟨hQuiet, hPc⟩ := quiet_of_consumer (by simp) hStep
      refine h.same hQuiet.toSameRequests fun hPosition => ?_
      rcases hPc with hSame | ⟨t, hSignal⟩ | ⟨t, p, signalled, hOld, hNew⟩
      · rwa [hSame]
      · rwa [hSignal, publishes_signal]
      · rw [hNew]
        rfl

/-- While all samples are of the two tracks, nothing but an end is published. -/
theorem run_openUntilEnd {guard : State → Act → Prop} {acts : List Act}
    (hGuard : ∀ s act, guard s act → act.isSeekTo = false ∧
      ∀ result fuel, act = .readSample result fuel → FlagsGuard cfg s act)
    (run : Run (step cfg) guard initial acts s) : OpenUntilEnd s :=
  run.invariant_of (fun _ _ => run_coherent) openUntilEnd_initial
    fun before act _ hCoherent h meets hStep =>
      openUntilEnd_step hCoherent h (hGuard before act meets).1 (hGuard before act meets).2 hStep

/-- A sample of the stream with the given index. -/
def sampleOf (k : Nat) : Sample := { keyFrame with streamIndex := k }

/-- The first result is a sample of the given stream. -/
def readFirst (k : Nat) : List Act :=
  [Act.start] ++ List.replicate 3 Act.producer ++ [Act.readSample (.sample (sampleOf k)) 0] ++
    List.replicate 3 Act.producer

/-- A sample of any other stream ends the playback. -/
theorem run_readFirst {k : Nat} (hCount : cfg.mTrackCount ≠ 0) (hVideo : k ≠ cfg.mVideoTrackID)
    (hAudio : k ≠ cfg.mAudioTrackID) : ∃ s,
    Run (step cfg) unguarded initial (readFirst k) s ∧ s.isStreamDone = true ∧
      s.reads.any ReadResult.ends = false := by
  have hExec : ∃ s, exec (step cfg) initial (readFirst k) = some s ∧ s.isStreamDone = true ∧
      s.reads.any ReadResult.ends = false := by
    simp [readFirst, exec, step, liveStep, startStep, initial, State.lockFree, ProducerPc.holdsLock,
      SeekerPc.holdsLock, hCount, producerStep, readSampleStep, handleRead, sampleOf, hVideo, hAudio,
      List.replicate, State.onGroup, ReadResult.ends]
  obtain ⟨s, hRun, hState⟩ := hExec
  exact ⟨s, Run.of_exec hRun, hState⟩

end Runs

section Streams

variable {box : PPBox} {cfg : Config}

theorem Config.new_chosen (hNew : Config.new box = some cfg) :
    ∃ x, x.toConfig = cfg ∧ Chosen box box.streams.length x := by
  obtain ⟨x, hTracks, hConfig⟩ := Option.map_eq_some_iff.mp hNew
  exact ⟨x, hConfig, chosen_addTracks (Nat.le_refl _) hTracks⟩

/-- Where the playback goes on, every stream is played. -/
theorem PlaysOn.played (h : PlaysOn box) (hNew : Config.new box = some cfg) {k : Nat}
    (hInside : k < box.streams.length) : k = cfg.mVideoTrackID ∨ k = cfg.mAudioTrackID := by
  obtain ⟨cfg', hNew', hRuns⟩ := h
  obtain rfl : cfg' = cfg := Option.some.inj (hNew'.symm.trans hNew)
  obtain ⟨x, rfl, hChosen⟩ := Config.new_chosen hNew
  by_contra hOther
  rw [not_or] at hOther
  have hCount : x.mTrackCount ≠ 0 := by
    rw [hChosen.count]
    omega
  obtain ⟨s, run, hDone, hOpen⟩ := run_readFirst hCount hOther.1 hOther.2
  have hMeets : ∀ state, ∀ act ∈ readFirst k, SamplesOf box state act := by
    intro state
    simpa [readFirst, SamplesOf, sampleOf, or_imp, forall_and] using hInside
  have hEnd := (hRuns _ s (run.strengthen hMeets)).1.flag hDone
  simp [hOpen] at hEnd

/-- A chosen track is the video track or the audio track by its kind. -/
theorem Chosen.kind {x : Tracks} (h : Chosen box box.streams.length x) {k : Nat} {info : StreamInfo}
    (hStream : box.streams[k]? = some info) :
    (k = x.mVideoTrackID → info.IsAvc) ∧ (k = x.mAudioTrackID → info.IsAac ∧ info.Accepted box) := by
  have hFits := box.fits
  have hInside : k < box.streams.length := (List.getElem?_eq_some_iff.mp hStream).1
  have hAbsent : k ≠ absent := by
    unfold absent
    omega
  refine ⟨?_, ?_⟩
  · rintro rfl
    obtain ⟨_, found, hFound, hAvc⟩ := h.video.resolve_left hAbsent
    obtain rfl : found = info := Option.some.inj (hFound.symm.trans hStream)
    exact hAvc
  · rintro rfl
    obtain ⟨_, found, hFound, hAac⟩ := h.audio.resolve_left hAbsent
    obtain rfl : found = info := Option.some.inj (hFound.symm.trans hStream)
    exact hAac

theorem oneOfEach_of_playsOn (hAvc : ∃ info ∈ box.streams, info.IsAvc)
    (hAac : ∃ info ∈ box.streams, info.IsAac) (h : PlaysOn box) : OneOfEach box := by
  obtain ⟨cfg, hNew, _⟩ := id h
  have hPlayed := @PlaysOn.played _ _ h hNew
  obtain ⟨x, rfl, hChosen⟩ := Config.new_chosen hNew
  obtain ⟨v, hMem, hAvc⟩ := hAvc
  obtain ⟨i, hVideo⟩ := List.mem_iff_getElem?.mp hMem
  obtain ⟨a, hMem, hAac⟩ := hAac
  obtain ⟨j, hAudio⟩ := List.mem_iff_getElem?.mp hMem
  have hFirst : i < box.streams.length := (List.getElem?_eq_some_iff.mp hVideo).1
  have hSecond : j < box.streams.length := (List.getElem?_eq_some_iff.mp hAudio).1
  have hI : i = x.mVideoTrackID := (hPlayed hFirst).resolve_right fun hSame =>
    hAvc.not_isAac ((hChosen.kind hVideo).2 hSame).1
  have hJ : j = x.mAudioTrackID := (hPlayed hSecond).resolve_left fun hSame =>
    ((hChosen.kind hAudio).1 hSame).not_isAac hAac
  have hGood : v.IsAvc ∧ v.Configured := ⟨hAvc, (hChosen.videoFound i hFirst v hVideo hAvc).2⟩
  have hAccepted : a.IsAac ∧ a.Accepted box := (hChosen.kind hAudio).2 hJ
  have hDifferent : i ≠ j := by
    rintro rfl
    obtain rfl : v = a := Option.some.inj (hVideo.symm.trans hAudio)
    exact hAvc.not_isAac hAac
  have hTwo : box.streams.length = 2 := by
    by_contra hMore
    have hZero := @hPlayed 0 (by omega)
    have hOne := @hPlayed 1 (by omega)
    have hThird := @hPlayed 2 (by omega)
    omega
  obtain ⟨first, second, hStreams⟩ := List.length_eq_two.mp hTwo
  rw [hTwo] at hFirst hSecond
  rw [hStreams] at hVideo hAudio
  refine ⟨v, a, ?_, hGood, hAccepted⟩
  obtain ⟨rfl, rfl⟩ | ⟨rfl, rfl⟩ : (i = 0 ∧ j = 1) ∨ (i = 1 ∧ j = 0) := by omega
  · obtain rfl : first = v := by simpa using hVideo
    obtain rfl : second = a := by simpa using hAudio
    exact Or.inl hStreams
  · obtain rfl : second = v := by simpa using hVideo
    obtain rfl : first = a := by simpa using hAudio
    exact Or.inr hStreams

/-- With one stream of each kind both are played. -/
theorem OneOfEach.played (h : OneOfEach box) : ∃ x : Tracks, Config.new box = some x.toConfig ∧
    ∀ k < box.streams.length, k = x.mVideoTrackID ∨ k = x.mAudioTrackID := by
  obtain ⟨v, a, hStreams, ⟨hAvc, hConfigured⟩, hAac, hAccepted⟩ := h
  have hMem : ∀ (k : Nat) (info : StreamInfo), box.streams[k]? = some info → info = v ∨ info = a := by
    intro k info hStream
    have hFound := List.mem_of_getElem? hStream
    rcases hStreams with hStreams | hStreams
    · simpa [hStreams] using hFound
    · simpa [hStreams, or_comm] using hFound
  have hSome : (addTracks box box.streams.length).isSome = true := by
    refine addTracks_isSome (Nat.le_refl _) fun k _ info hStream => ?_
    rcases hMem k info hStream with rfl | rfl
    · exact Or.inl ⟨hAvc, hConfigured⟩
    · exact Or.inr ⟨hAac, hAccepted.1⟩
  obtain ⟨x, hTracks⟩ := Option.isSome_iff_exists.mp hSome
  have hChosen := chosen_addTracks (Nat.le_refl _) hTracks
  refine ⟨x, by simp [Config.new, hTracks], ?_⟩
  obtain ⟨i, j, hVideo, hAudio, hAll⟩ : ∃ i j, box.streams[i]? = some v ∧ box.streams[j]? = some a ∧
      ∀ k < box.streams.length, k = i ∨ k = j := by
    rcases hStreams with hStreams | hStreams
    · exact ⟨0, 1, by simp [hStreams], by simp [hStreams], by simp [hStreams]; omega⟩
    · exact ⟨1, 0, by simp [hStreams], by simp [hStreams], by simp [hStreams]; omega⟩
  have hFirst : i < box.streams.length := (List.getElem?_eq_some_iff.mp hVideo).1
  have hSecond : j < box.streams.length := (List.getElem?_eq_some_iff.mp hAudio).1
  obtain ⟨hInside, found, hFound, hKind⟩ :=
    hChosen.video.resolve_left (hChosen.videoFound i hFirst v hVideo hAvc).1
  obtain ⟨hInside', found', hFound', hKind', _⟩ :=
    hChosen.audio.resolve_left (hChosen.audioFound j hSecond a hAudio hAac hAccepted)
  have hI : x.mVideoTrackID = i := (hAll _ hInside).resolve_right fun hSame => by
    obtain rfl : found = a := Option.some.inj (hFound.symm.trans (hSame ▸ hAudio))
    exact hKind.not_isAac hAac
  have hJ : x.mAudioTrackID = j := (hAll _ hInside').resolve_left fun hSame => by
    obtain rfl : found' = v := Option.some.inj (hFound'.symm.trans (hSame ▸ hVideo))
    exact hAvc.not_isAac hKind'
  rw [hI, hJ]
  exact hAll

theorem playsOn_of_oneOfEach (h : OneOfEach box) : PlaysOn box := by
  obtain ⟨x, hNew, hPlayed⟩ := h.played
  refine ⟨x.toConfig, hNew, fun acts s run => ⟨?_, fun sample fuel s' _ hInside hVideo hAudio => ?_⟩⟩
  · refine (run_openUntilEnd (fun s act hMeets => ⟨?_, fun result fuel hRead => ?_⟩) run).doneAtEnd
    · cases act <;> first | rfl | exact absurd hMeets id
    · subst hRead
      cases result with
      | sample sample => exact hPlayed _ hMeets
      | wouldBlock | streamEnd | error => trivial
  · rcases hPlayed _ hInside with hSame | hSame
    · exact absurd hSame hVideo
    · exact absurd hSame hAudio

/-- Among streams with an AVC and an AAC stream, the playback goes on exactly when
there are no others and both configurations are good. -/
theorem playsOn_iff_oneOfEach (hAvc : ∃ info ∈ box.streams, info.IsAvc)
    (hAac : ∃ info ∈ box.streams, info.IsAac) : PlaysOn box ↔ OneOfEach box :=
  ⟨oneOfEach_of_playsOn hAvc hAac, playsOn_of_oneOfEach⟩

/-- An AVC stream with the least configuration that passes the checks. -/
def avcStream : StreamInfo where
  type := .video
  subType := .videoAvc
  width := 640
  height := 360
  formatSize := 7
  formatBuffer := fun i => [1, 66, 0, 30, 255, 225, 0].getD i 0

/-- An AAC-LC stream with 44100 samples a second and two channels. -/
def aacStream : StreamInfo where
  type := .audio
  subType := .audioAac
  width := 0
  height := 0
  formatSize := 2
  formatBuffer := fun i => [0x12, 0x10].getD i 0

def android16 : AudioSystem := ⟨false, false, false⟩

theorem playsOn_iff_oneOfEach_pair :
    PlaysOn ⟨[avcStream, aacStream], 60000, android16, by decide⟩ ∧
      OneOfEach ⟨[avcStream, aacStream], 60000, android16, by decide⟩ := by
  have hPair : OneOfEach ⟨[avcStream, aacStream], 60000, android16, by decide⟩ :=
    ⟨avcStream, aacStream, Or.inl rfl, ⟨⟨rfl, rfl⟩, by decide, rfl⟩, ⟨rfl, rfl⟩, by decide,
      rfl⟩
  refine ⟨(playsOn_iff_oneOfEach ?_ ?_).mpr hPair, hPair⟩
  · exact ⟨avcStream, by simp, rfl, rfl⟩
  · exact ⟨aacStream, by simp, rfl, rfl⟩

/-- A second AAC stream, the one that is not chosen, ends the playback. -/
theorem not_playsOn_twoAac :
    ¬ PlaysOn ⟨[avcStream, aacStream, aacStream], 60000, android16, by decide⟩ := by
  intro h
  obtain ⟨cfg, hNew, _⟩ := id h
  have hFirst := h.played hNew (show 0 < 3 by decide)
  have hSecond := h.played hNew (show 1 < 3 by decide)
  have hThird := h.played hNew (show 2 < 3 by decide)
  omega

end Streams

end Meet.PPExtractor
