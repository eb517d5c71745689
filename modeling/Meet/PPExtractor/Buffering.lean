import Meet.PPExtractor.Coherence

/-! What `isBuffering` says once the stream is done. `notify_streamdone` ends the
pre-roll of a group, but `pop_buffer` and `clear_all_buffer` begin it again without a
look at `mIsStreamDone`, and `start` does not reset `isStreamDone`. -/
namespace Meet.PPExtractor

/-- `isBuffering` of the extractor. It is false unless both groups are there. -/
def State.isBuffering (s : State) : Bool :=
  match s.group .audio, s.group .video with
  | some audio, some video => audio.isBuffering || video.isBuffering
  | _, _ => false

def State.reachedEndOfStream (s : State) : Bool := s.isStreamDone

/-- Only the video group counts. -/
def State.getCachedDurationUs (s : State) : Int :=
  match s.group .video with
  | some video => video.getCachedDurationUs
  | none => 0

/-- A stream that is done does not report that it buffers, unless a seek has been
asked for or the producer is at its calls of `notify_streamdone`. -/
def NotBufferingAtEnd (s : State) : Prop :=
  s.isStreamDone = true → s.isSeeking = false → (∀ t, s.producer ≠ .publish t) →
    s.isBuffering = false

/-- No reader takes the last frame of a group that is done, or arms its pre-roll
after that; no seek is to the end; and a start finds `isStreamDone` false. -/
def BufferingGuard (cfg : Config) (s : State) : Act → Prop
  | .reader t => s.isSeeking = false → ∀ g ∈ s.group t, g.mIsStreamDone = true →
      s.reader t ≠ .rearm ∧ (s.reader t = .headTest → g.frames.length ≠ 1)
  | .producer => s.producer = .seekBranch → ¬ s.seeksToEnd cfg
  | .start => s.mStarted = false → s.isStreamDone = false
  | _ => True

instance (cfg : Config) (s : State) (act : Act) : Decidable (BufferingGuard cfg s act) :=
  match act with
  | .reader _ | .producer | .start => inferInstanceAs (Decidable (_ → _))
  | .readSample _ _ | .spuriousWake | .seekTo _ | .seeker | .stop | .control | .read _
  | .release _ _ | .releaseOrphan _ _ => .isTrue trivial

/-- The group knows that the stream is done and does not buffer. -/
def Silent (group : Track → Option PPMediaBufferGroup) (t : Track) : Prop :=
  ∀ g ∈ group t, g.mIsStreamDone = true ∧ g.mStartBuffering = false

/-- What the producer knows about the groups where it stands. -/
def SettledAt (seeking done : Bool) (group : Track → Option PPMediaBufferGroup) :
    ProducerPc → Prop
  | .publish .audio => seeking = false → Silent group .video
  | .publishFlag => seeking = false → ∀ t, Silent group t
  | .seekEnd _ | .seekEndFlag => False
  | .seekClear _ | .seekDone _ | .seekFinish => done = false
  | _ => True

/-- The groups are silent from their `notify_streamdone` to the next seek. -/
structure Settled (s : State) : Prop where
  done : s.isStreamDone = true → s.isSeeking = false → ∀ t, Silent s.group t
  position : SettledAt s.isSeeking s.isStreamDone s.group s.producer

theorem settled_initial : Settled initial := by
  constructor <;> simp [initial, SettledAt]

theorem Settled.notBufferingAtEnd {s : State} (h : Settled s) : NotBufferingAtEnd s := by
  intro hDone hCalm _
  unfold State.isBuffering
  split
  case h_1 audio video hAudio hVideo =>
    have hFirst := (h.done hDone hCalm .audio audio hAudio).2
    have hSecond := (h.done hDone hCalm .video video hVideo).2
    simp [PPMediaBufferGroup.isBuffering, hFirst, hSecond]
  case h_2 => rfl

section Steps

variable {cfg : Config} {s s' : State}

/-- Silent groups stay silent, or are gone. -/
def KeepsSilence (before after : Track → Option PPMediaBufferGroup) : Prop :=
  ∀ t, Silent before t → Silent after t

theorem KeepsSilence.refl (group : Track → Option PPMediaBufferGroup) : KeepsSilence group group :=
  fun _ h => h

theorem keepsSilence_onGroup {f : PPMediaBufferGroup → PPMediaBufferGroup} (t : Track)
    (hKeeps : ∀ g ∈ s.group t, g.mIsStreamDone = true → g.mStartBuffering = false →
      (f g).mIsStreamDone = true ∧ (f g).mStartBuffering = false) :
    KeepsSilence s.group (s.onGroup t f).group := by
  intro u h g hGroup
  rw [State.onGroup_group] at hGroup
  split_ifs at hGroup with hHere
  · subst hHere
    obtain ⟨old, hOld, rfl⟩ := Option.map_eq_some_iff.mp hGroup
    obtain ⟨hDone, hStill⟩ := h old hOld
    exact hKeeps old hOld hDone hStill
  · exact h g hGroup

theorem silent_notified (s : State) (t : Track) :
    Silent (s.onGroup t (·.notifyStreamdone)).group t := by
  intro g hGroup
  rw [State.onGroup_group, if_pos rfl] at hGroup
  obtain ⟨old, _, rfl⟩ := Option.map_eq_some_iff.mp hGroup
  exact ⟨rfl, rfl⟩

theorem keepsSilence_notified (s : State) (t : Track) :
    KeepsSilence s.group (s.onGroup t (·.notifyStreamdone)).group :=
  keepsSilence_onGroup t fun _ _ _ _ => ⟨rfl, rfl⟩

theorem keepsSilence_push {t : Track} {g : PPMediaBufferGroup} {p : Payload} {pc : PushPc}
    (hStep : pushStep s t g p pc = some s') : KeepsSilence s.group s'.group := by
  unfold pushStep at hStep
  cases pc with
  | store addr =>
      obtain rfl := Option.some.inj hStep
      refine keepsSilence_onGroup t fun g _ hDone hStill => ⟨hDone, ?_⟩
      simp [PPMediaBufferGroup.store, hStill]
  | waiting =>
      obtain rfl := Option.some.inj hStep
      exact KeepsSilence.refl _
  | enter | acquiring | cmpAbove | frontTest | cmpBelow | middleTest | asleep =>
      dsimp only at hStep
      split_ifs at hStep
      all_goals
        obtain rfl := Option.some.inj hStep
        exact KeepsSilence.refl _

theorem keepsSilence_pop {t : Track} {g : PPMediaBufferGroup} (hGroup : s.group t = some g)
    (hLast : g.mIsStreamDone = true →
      s.reader t ≠ .rearm ∧ (s.reader t = .headTest → g.frames.length ≠ 1))
    (hStep : popStep s t g = some s') : KeepsSilence s.group s'.group := by
  have hOnly : ∀ f : PPMediaBufferGroup → PPMediaBufferGroup,
      (g.mIsStreamDone = true → g.mStartBuffering = false →
        (f g).mIsStreamDone = true ∧ (f g).mStartBuffering = false) →
      KeepsSilence s.group (s.onGroup t f).group := by
    refine fun f hKeeps => keepsSilence_onGroup t fun old hOld => ?_
    obtain rfl : g = old := Option.some.inj (hGroup.symm.trans hOld)
    exact hKeeps
  unfold popStep at hStep
  cases hReader : s.reader t with
  | idle | returned | dangling => simp [hReader] at hStep
  | headTest =>
      simp only [hReader] at hStep
      cases hFrames : g.frames with
      | nil =>
          simp only [hFrames, Option.some.injEq] at hStep
          subst hStep
          exact KeepsSilence.refl _
      | cons b rest =>
          simp only [hFrames, Option.some.injEq] at hStep
          subst hStep
          refine hOnly _ fun hDone hStill => ⟨hDone, ?_⟩
          have hMore := (hLast hDone).2 hReader
          have hRest : rest.isEmpty = false := by
            cases rest with
            | nil => simp [hFrames] at hMore
            | cons => rfl
          simp [PPMediaBufferGroup.takeFirst, hRest, hStill]
  | rearm =>
      simp only [hReader, Option.some.injEq] at hStep
      subst hStep
      exact hOnly _ fun hDone _ => absurd hReader (hLast hDone).1
  | enter | asleep | whileTest | stopTest | doneTest =>
      simp only [hReader] at hStep
      split_ifs at hStep
      all_goals
        obtain rfl := Option.some.inj hStep
        exact KeepsSilence.refl _

/-- What is known at a place of the producer stays known. -/
theorem SettledAt.keep {seeking done : Bool} {group group' : Track → Option PPMediaBufferGroup}
    {pc : ProducerPc} (h : SettledAt seeking done group pc) (hKeeps : KeepsSilence group group') :
    SettledAt seeking done group' pc := by
  unfold SettledAt at h ⊢
  split at h
  · exact fun hCalm => hKeeps _ (h hCalm)
  · exact fun hCalm t => hKeeps t (h hCalm t)
  all_goals exact h

/-- A seek has been asked for, so nothing is known of the groups. -/
theorem SettledAt.asked {seeking done : Bool} {group group' : Track → Option PPMediaBufferGroup}
    {pc : ProducerPc} (h : SettledAt seeking done group pc) : SettledAt true done group' pc := by
  unfold SettledAt at h ⊢
  split at h
  · simp
  · simp
  all_goals exact h

theorem SettledAt.signal {seeking done : Bool} {group : Track → Option PPMediaBufferGroup}
    {pc : ProducerPc} (h : SettledAt seeking done group pc) (t : Track) :
    SettledAt seeking done group (pc.signal t) := by
  rcases signal_cases pc t with hSame | ⟨t', p, signalled, rfl, hMoved⟩
  · rwa [hSame]
  · rwa [hMoved]

/-- Steps that leave the flags of the extractor as they are and no group less
silent. -/
theorem Settled.keep (h : Settled s) (hSeeking : s'.isSeeking = s.isSeeking)
    (hDone : s'.isStreamDone = s.isStreamDone) (hKeeps : KeepsSilence s.group s'.group)
    (hPosition : SettledAt s.isSeeking s.isStreamDone s.group s'.producer) : Settled s' := by
  refine ⟨fun hEnd hCalm t => hKeeps t (h.done (hDone ▸ hEnd) (hSeeking ▸ hCalm) t), ?_⟩
  rw [hSeeking, hDone]
  exact hPosition.keep hKeeps

theorem settled_producer (h : Settled s)
    (hGuard : s.producer = .seekBranch → ¬ s.seeksToEnd cfg)
    (hStep : producerStep cfg s = some s') : Settled s' := by
  have hPosition := h.position
  cases produces_of_step hStep with
  | push hPc hGroup hPush =>
      rename_i t p pc g
      obtain ⟨hQuiet, hNext⟩ := pushStep_quiet hPush
      refine h.keep hQuiet.isSeeking hQuiet.isStreamDone (keepsSilence_push hPush) ?_
      rcases hNext with hNext | ⟨pc', hNext⟩ <;> simp [hNext, SettledAt]
  | pushError hPc hGroup hPush =>
      rcases pushErrorStep_cases hPush with rfl | rfl <;>
        exact h.keep rfl rfl (KeepsSilence.refl _) trivial
  | loopTest hPc | seekTest hPc | doneTest hPc =>
      refine h.keep rfl rfl (KeepsSilence.refl _) ?_
      dsimp only
      split <;> trivial
  | seekLock hPc hFree =>
      exact h.keep rfl rfl (KeepsSilence.refl _) trivial
  | seekBranch hPc =>
      refine h.keep rfl rfl (KeepsSilence.refl _) ?_
      simp only [if_neg (hGuard hPc)]
      trivial
  | seekEndVideo hPc | seekEndAudio hPc | seekEndFlag hPc => simp [hPc, SettledAt] at hPosition
  | seekBox hPc =>
      exact ⟨by simp, rfl⟩
  | seekClear hPc hFree | seekDone hPc hFree =>
      rename_i t
      have hOpen : s.isStreamDone = false := by simpa [hPc, SettledAt] using hPosition
      refine ⟨by simp [State.onGroup, hOpen], ?_⟩
      cases t <;> exact hOpen
  | seekFinish hPc =>
      have hOpen : s.isStreamDone = false := by simpa [hPc, SettledAt] using hPosition
      exact ⟨by simp [hOpen], trivial⟩
  | publishVideo hPc =>
      exact ⟨fun hDone hCalm u => keepsSilence_notified s _ u (h.done hDone hCalm u),
        fun _ => silent_notified s .video⟩
  | publishAudio hPc =>
      have hVideo : s.isSeeking = false → Silent s.group .video := by
        simpa [hPc, SettledAt] using hPosition
      refine ⟨fun hDone hCalm u => keepsSilence_notified s _ u (h.done hDone hCalm u),
        fun hCalm => Track.forall.mpr ⟨?_, silent_notified s .audio⟩⟩
      exact keepsSilence_notified s _ _ (hVideo hCalm)
  | publishFlag hPc =>
      have hBoth : s.isSeeking = false → ∀ t, Silent s.group t := by
        simpa [hPc, SettledAt] using hPosition
      exact ⟨fun _ hCalm => hBoth hCalm, trivial⟩
  | exiting hPc =>
      exact h.keep rfl rfl (KeepsSilence.refl _) trivial

theorem settled_seeker (hCoherent : Coherent s) (h : Settled s) (hStep : seekerStep s = some s') :
    Settled s' := by
  cases seeks_of_step hStep with
  | enter hSeeker hFree =>
      exact ⟨by simp, h.position.asked⟩
  | notify hSeeker hFree =>
      rename_i t
      have hSeeking : s.isSeeking = true := by rw [hCoherent.pending, hSeeker]; rfl
      refine ⟨by simp [State.onGroup, hSeeking], ?_⟩
      dsimp only [State.onGroup]
      rw [hSeeking]
      exact h.position.asked.signal t
  | wait hSeeker =>
      exact ⟨h.done, h.position⟩
  | wake hSeeker hFree =>
      exact ⟨h.done, h.position⟩

theorem settled_control (h : Settled s) (hStep : controlStep s = some s') : Settled s' := by
  cases controls_of_step hStep with
  | notifyStop hControl =>
      rename_i t
      exact h.keep rfl rfl (keepsSilence_onGroup t fun _ _ hDone _ => ⟨hDone, rfl⟩)
        (h.position.signal t)
  | join hControl hExited =>
      exact ⟨h.done, h.position⟩
  | delete hControl hFree =>
      refine h.keep rfl rfl (fun u hSilent g hGroup => ?_) h.position
      dsimp only at hGroup
      rw [Function.update_apply] at hGroup
      split_ifs at hGroup
      · simp at hGroup
      · exact hSilent g hGroup

theorem settled_reader {t : Track} (h : Settled s) (hGuard : BufferingGuard cfg s (.reader t))
    (hStep : readerStep s t = some s') : Settled s' := by
  have hMove : ∀ pc, Settled (s.setReader t pc) := fun _ => ⟨h.done, h.position⟩
  unfold readerStep at hStep
  cases hGroup : s.group t with
  | none =>
      simp only [hGroup] at hStep
      split at hStep
      all_goals first
        | obtain rfl := Option.some.inj hStep
          exact hMove _
        | simp at hStep
  | some g =>
      simp only [hGroup] at hStep
      obtain ⟨hQuiet, hPc⟩ := popStep_quiet hStep
      by_cases hSeeking : s.isSeeking = true
      · refine ⟨by simp [hQuiet.isSeeking, hSeeking], ?_⟩
        rw [hQuiet.isSeeking, hSeeking, hQuiet.isStreamDone, hPc]
        exact h.position.asked
      · refine h.keep hQuiet.isSeeking hQuiet.isStreamDone ?_ (hPc.symm ▸ h.position)
        exact keepsSilence_pop hGroup (hGuard (by simpa using hSeeking) g hGroup) hStep

theorem settled_step {act : Act} (hCoherent : Coherent s) (h : Settled s)
    (hGuard : BufferingGuard cfg s act) (hStep : step cfg s act = some s') : Settled s' := by
  unfold step at hStep
  split_ifs at hStep
  cases act with
  | producer => exact settled_producer h hGuard hStep
  | readSample result fuel =>
      obtain ⟨-, pc, hNext, rfl⟩ := readSampleStep_cases hStep
      refine h.keep rfl rfl (KeepsSilence.refl _) ?_
      rcases handleRead_cases hNext with rfl | rfl | rfl | ⟨rfl, _⟩ | ⟨t, p, rfl, _⟩ <;> trivial
  | seekTo seekTimeUs =>
      obtain ⟨-, rfl⟩ := seekTo_cases hStep
      exact ⟨h.done, h.position⟩
  | seeker => exact settled_seeker hCoherent h hStep
  | start =>
      rcases startStep_cases hStep with rfl | ⟨hStopped, _, _, rfl⟩
      · exact h
      · exact ⟨by simp [hGuard hStopped], trivial⟩
  | stop => rcases stopStep_cases hStep with rfl | ⟨_, _, rfl⟩ <;> exact ⟨h.done, h.position⟩
  | control => exact settled_control h hStep
  | read t =>
      simp only [liveStep, readStep] at hStep
      split at hStep
      all_goals first
        | obtain rfl := Option.some.inj hStep
          exact ⟨h.done, h.position⟩
        | simp at hStep
  | reader t => exact settled_reader h hGuard hStep
  | release t index =>
      simp only [liveStep, releaseStep, Option.map_eq_some_iff] at hStep
      obtain ⟨b, _, rfl⟩ := hStep
      exact h.keep rfl rfl (keepsSilence_onGroup t fun _ _ hDone hStill => ⟨hDone, hStill⟩)
        (h.position.signal t)
  | releaseOrphan t index =>
      simp only [liveStep] at hStep
      split_ifs at hStep
      obtain rfl := Option.some.inj hStep
      exact ⟨h.done, h.position⟩
  | spuriousWake =>
      simp only [liveStep] at hStep
      split at hStep
      case h_2 => simp at hStep
      case h_1 =>
        obtain rfl := Option.some.inj hStep
        exact h.keep rfl rfl (KeepsSilence.refl _) trivial

end Steps

section Runs

variable {cfg : Config} {acts : List Act} {s : State}

/-- As long as no step begins the pre-roll of a group that is done, a stream that is
done is never reported as buffering. -/
theorem run_notBufferingAtEnd (run : Run (step cfg) (BufferingGuard cfg) initial acts s) :
    NotBufferingAtEnd s :=
  (run.invariant_of (fun _ _ => run_coherent) settled_initial fun _ _ _ hCoherent h hGuard hStep =>
    settled_step hCoherent h hGuard hStep).notBufferingAtEnd

/-- A key frame is read and stored. -/
def storeOne : List Act :=
  [Act.start] ++ List.replicate 3 Act.producer ++ [Act.readSample (.sample keyFrame) 2] ++
    List.replicate 4 Act.producer

/-- A reader takes the key frame. -/
def takeOne : List Act := [Act.read .video] ++ List.replicate 4 (Act.reader .video)

/-- The end is read and published. -/
def publishEnd : List Act :=
  List.replicate 3 Act.producer ++ [Act.readSample .streamEnd 0] ++ List.replicate 3 Act.producer

/-- The last frame is taken before the end is published. -/
theorem run_notBufferingAtEnd_takenBefore : ∃ s,
    Run (step twoTracks) (BufferingGuard twoTracks) initial (storeOne ++ takeOne ++ publishEnd) s ∧
    (s.isStreamDone = true ∧ s.isSeeking = false ∧ s.producer = .loopTest ∧
      (s.group .video).isSome = true ∧ (s.group .audio).isSome = true) ∧ NotBufferingAtEnd s := by
  obtain ⟨s, run, hState⟩ := Run.exists_of_execGuarded
    (fun s => s.isStreamDone = true ∧ s.isSeeking = false ∧ s.producer = .loopTest ∧
      (s.group .video).isSome = true ∧ (s.group .audio).isSome = true)
    (show (execGuarded (step twoTracks) (BufferingGuard twoTracks) initial
      (storeOne ++ takeOne ++ publishEnd)).any _ = true by decide)
  exact ⟨s, run, hState, run_notBufferingAtEnd run⟩

/-- The last frame is taken after the end has been published, and the group reports
that it buffers from then on. -/
theorem exists_run_bufferingAtEnd : ∃ s,
    Run (step twoTracks) unguarded initial (storeOne ++ publishEnd ++ takeOne) s ∧
    ¬ NotBufferingAtEnd s := by
  obtain ⟨s, run, hDone, hCalm, hPc, hBuffering⟩ := Run.exists_of_exec
    (fun s => s.isStreamDone = true ∧ s.isSeeking = false ∧ s.producer = .loopTest ∧
      s.isBuffering = true)
    (show (exec (step twoTracks) initial (storeOne ++ publishEnd ++ takeOne)).any _ = true by decide)
  refine ⟨s, run, fun h => ?_⟩
  have hNot := h hDone hCalm (by simp [hPc])
  simp [hBuffering] at hNot

end Runs

end Meet.PPExtractor
