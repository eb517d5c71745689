import Meet.PPExtractor.SeekWait

/-! Where the frames of the groups come from. The producer itself serves a
seek, so it has nothing in hand then; it counts the results read so far, empties
both groups and only then wakes the caller of `seekTo`. -/
namespace Meet.PPExtractor

/-- A time and a sync flag are those of a sample among the results from `mark`
on. -/
def FromRead (reads : List ReadResult) (mark origin : Nat) (time : Int) (isSync : Bool) : Prop :=
  mark ≤ origin ∧ ∃ sample, reads[origin]? = some (.sample sample) ∧ sample.startTime = time ∧
    sample.isSync = isSync

theorem FromRead.lt_length {reads : List ReadResult} {mark origin : Nat} {time : Int}
    {isSync : Bool} (h : FromRead reads mark origin time isSync) : origin < reads.length := by
  obtain ⟨_, sample, hRead, _⟩ := h
  exact (List.getElem?_eq_some_iff.mp hRead).1

theorem FromRead.append {reads : List ReadResult} {mark origin : Nat} {time : Int} {isSync : Bool}
    (h : FromRead reads mark origin time isSync) (result : ReadResult) :
    FromRead (reads ++ [result]) mark origin time isSync := by
  obtain ⟨hMark, sample, hRead, hSame⟩ := h
  refine ⟨hMark, sample, ?_, hSame⟩
  rw [List.getElem?_append_left (List.getElem?_eq_some_iff.mp hRead).1]
  exact hRead

def FrameFromRead (reads : List ReadResult) (mark : Nat) (b : MediaBuffer) : Prop :=
  FromRead reads mark b.origin b.kKeyTime b.kKeyIsSyncFrame

/-- The group still holds what was read before the seek that is being served. -/
def ProducerPc.dirty (t : Track) : ProducerPc → Bool
  | .seekClear .video => true
  | .seekDone .video | .seekClear .audio => t = .audio
  | _ => false

theorem ProducerPc.holdsLock_of_dirty (pc : ProducerPc) {t : Track} (h : pc.dirty t = true) :
    pc.holdsLock = true := by
  cases pc <;> simp_all [dirty, holdsLock]

/-- The producer is in or behind a call of `readSampleEx2`. -/
def ProducerPc.hasRead : ProducerPc → Bool
  | .reading | .push _ _ _ | .pushError | .publish _ | .publishFlag => true
  | _ => false

/-- Everything in hand and in the groups was read since the last seek, and
after a seek to the end nothing is read. -/
structure Fresh (s : State) : Prop where
  mark : s.seekMark ≤ s.reads.length
  hand : ∀ t p pc, s.producer = .push t p pc →
    FromRead s.reads s.seekMark p.origin p.frameTime p.isSync
  ring : ∀ t, s.producer.dirty t = false → ∀ g, s.group t = some g → ∀ b ∈ g.frames,
    FrameFromRead s.reads s.seekMark b
  atEnd : s.servedToEnd = true → s.isStreamDone = true ∧ s.reads.length = s.seekMark ∧
    s.producer.hasRead = false

theorem fresh_initial : Fresh initial := by
  constructor <;> simp [initial]

/-- No group has gained a frame. -/
def KeepsFrames (before after : Track → Option PPMediaBufferGroup) : Prop :=
  ∀ t g, after t = some g → ∀ b ∈ g.frames, ∃ old, before t = some old ∧ b ∈ old.frames

theorem KeepsFrames.refl (group : Track → Option PPMediaBufferGroup) : KeepsFrames group group :=
  fun _ g hGroup _ hMem => ⟨g, hGroup, hMem⟩

section Steps

variable {cfg : Config} {s s' : State}

theorem keepsFrames_onGroup {f : PPMediaBufferGroup → PPMediaBufferGroup} (t : Track)
    (h : ∀ g, s.group t = some g → ∀ b ∈ (f g).frames, b ∈ g.frames) :
    KeepsFrames s.group (s.onGroup t f).group := by
  intro u g hGroup b hMem
  rw [State.onGroup_group] at hGroup
  split_ifs at hGroup with hHere
  · subst hHere
    obtain ⟨old, hOld, rfl⟩ := Option.map_eq_some_iff.mp hGroup
    exact ⟨old, hOld, h old hOld b hMem⟩
  · exact ⟨g, hGroup, hMem⟩

/-- Steps that read nothing, serve no seek and add no frame. -/
theorem Fresh.keep (h : Fresh s) (hReads : s'.reads = s.reads) (hMark : s'.seekMark = s.seekMark)
    (hServed : s'.servedToEnd = s.servedToEnd) (hFrames : KeepsFrames s.group s'.group)
    (hHand : ∀ t p pc, s'.producer = .push t p pc → ∃ pc', s.producer = .push t p pc')
    (hDirty : ∀ t, s'.producer.dirty t = false → s.producer.dirty t = false)
    (hEnd : s.isStreamDone = true → s.producer.hasRead = false →
      s'.isStreamDone = true ∧ s'.producer.hasRead = false) : Fresh s' := by
  refine ⟨?_, ?_, ?_, ?_⟩
  · rw [hReads, hMark]
    exact h.mark
  · intro t p pc hPush
    obtain ⟨pc', hOld⟩ := hHand t p pc hPush
    rw [hReads, hMark]
    exact h.hand t p pc' hOld
  · intro t hClean g hGroup b hMem
    obtain ⟨old, hOld, hMem⟩ := hFrames t g hGroup b hMem
    rw [hReads, hMark]
    exact h.ring t (hDirty t hClean) old hOld b hMem
  · intro hServedToEnd
    rw [hServed] at hServedToEnd
    obtain ⟨hDone, hLength, hIdle⟩ := h.atEnd hServedToEnd
    rw [hReads, hMark]
    exact ⟨(hEnd hDone hIdle).1, hLength, (hEnd hDone hIdle).2⟩

theorem fresh_push {t : Track} {g : PPMediaBufferGroup} {p : Payload} {pc : PushPc} (h : Fresh s)
    (hPc : s.producer = .push t p pc) (hStep : pushStep s t g p pc = some s') : Fresh s' := by
  have hNotEnd : s.servedToEnd = false := by
    by_contra hServed
    simpa [hPc, ProducerPc.hasRead] using (h.atEnd (by simpa using hServed)).2.2
  unfold pushStep at hStep
  cases pc with
  | store addr =>
      obtain rfl := Option.some.inj hStep
      refine ⟨h.mark, by simp, fun u _ g hGroup b hMem => ?_, by simp [State.onGroup, hNotEnd]⟩
      rw [State.onGroup_group] at hGroup
      split_ifs at hGroup with hHere
      · subst hHere
        obtain ⟨old, hOld, rfl⟩ := Option.map_eq_some_iff.mp hGroup
        simp only [PPMediaBufferGroup.store, List.mem_append, List.mem_singleton] at hMem
        rcases hMem with hMem | rfl
        · exact h.ring u (by simp [hPc, ProducerPc.dirty]) old hOld b hMem
        · exact h.hand u p _ hPc
      · exact h.ring u (by simp [hPc, ProducerPc.dirty]) g hGroup b hMem
  | waiting =>
      obtain rfl := Option.some.inj hStep
      refine h.keep rfl rfl rfl (KeepsFrames.refl _) ?_ ?_ ?_ <;>
        simp [hPc, ProducerPc.dirty, ProducerPc.hasRead]
  | enter | acquiring | cmpAbove | frontTest | cmpBelow | middleTest | asleep =>
      dsimp only at hStep
      split_ifs at hStep
      all_goals
        obtain rfl := Option.some.inj hStep
        refine h.keep rfl rfl rfl (KeepsFrames.refl _) ?_ ?_ ?_ <;>
          simp [hPc, ProducerPc.dirty, ProducerPc.hasRead]

theorem fresh_producer (h : Fresh s) (hStep : producerStep cfg s = some s') : Fresh s' := by
  cases produces_of_step hStep with
  | push hPc hGroup hPush =>
      exact fresh_push h hPc hPush
  | pushError hPc hGroup hPush =>
      rcases pushErrorStep_cases hPush with rfl | rfl <;>
      · refine h.keep rfl rfl rfl (KeepsFrames.refl _) ?_ ?_ ?_ <;>
          simp [hPc, ProducerPc.dirty, ProducerPc.hasRead]
  | seekEndFlag hPc | seekBox hPc =>
      constructor <;> simp [ProducerPc.dirty, ProducerPc.hasRead]
  | seekClear hPc hFree =>
      rename_i t
      have hAtEnd := h.atEnd
      refine ⟨h.mark, by simp, fun u hClean g hGroup b hMem => ?_, ?_⟩
      · rw [State.onGroup_group] at hGroup
        split_ifs at hGroup with hHere
        · obtain ⟨old, _, rfl⟩ := Option.map_eq_some_iff.mp hGroup
          simp [PPMediaBufferGroup.clearBuffer, PPMediaBufferGroup.clearAllBuffer] at hMem
        · refine h.ring u ?_ g hGroup b hMem
          rw [hPc]
          cases t <;> cases u <;> simp_all [ProducerPc.dirty]
      · simp_all [State.onGroup, ProducerPc.hasRead]
  | seekDone hPc hFree =>
      rename_i t
      refine h.keep rfl rfl rfl (keepsFrames_onGroup t fun _ _ _ hMem => hMem) ?_ ?_ ?_ <;>
        cases t <;> simp [hPc, State.onGroup, ProducerPc.dirty, ProducerPc.hasRead]
  | seekEndVideo hPc | seekEndAudio hPc | publishVideo hPc | publishAudio hPc =>
      refine h.keep rfl rfl rfl (keepsFrames_onGroup _ fun _ _ _ hMem => hMem) ?_ ?_ ?_ <;>
        simp [hPc, State.onGroup, ProducerPc.dirty, ProducerPc.hasRead]
  | seekLock hPc hFree =>
      refine h.keep rfl rfl rfl (KeepsFrames.refl _) ?_ ?_ ?_ <;>
        simp [hPc, ProducerPc.dirty, ProducerPc.hasRead]
  | loopTest hPc | seekTest hPc | seekBranch hPc | seekFinish hPc | doneTest hPc
  | publishFlag hPc | exiting hPc =>
      refine h.keep rfl rfl rfl (KeepsFrames.refl _) ?_ ?_ ?_ <;>
        grind [ProducerPc.dirty, ProducerPc.hasRead]

theorem enterPush_eq_push {t t' : Track} {p q : Payload} {pc : PushPc}
    (h : enterPush s t p = .push t' q pc) : t' = t ∧ q = p ∧ pc = .enter := by
  unfold enterPush at h
  split_ifs at h
  simp_all

/-- What the producer takes into a push is the sample it has just read. -/
theorem handleRead_push {result : ReadResult} {fuel : Nat} {t : Track} {p : Payload} {pc : PushPc}
    (h : handleRead cfg s fuel result = some (.push t p pc)) :
    p.origin = s.reads.length ∧ ∃ sample, result = .sample sample ∧
      sample.startTime = p.frameTime ∧ sample.isSync = p.isSync := by
  cases result with
  | wouldBlock | streamEnd | error => simp [handleRead] at h
  | sample sample =>
      simp only [handleRead] at h
      split_ifs at h
      · obtain ⟨converted, _, hHandled⟩ := Option.map_eq_some_iff.mp h
        cases converted with
        | written dst =>
            obtain ⟨_, rfl, _⟩ := enterPush_eq_push hHandled
            exact ⟨rfl, sample, rfl, rfl, rfl⟩
        | error => cases hNone : s.group .video <;> simp [handleVideo, hNone] at hHandled
        | checkFailed | fault => simp [handleVideo] at hHandled
      · obtain ⟨_, rfl, _⟩ := enterPush_eq_push (Option.some.inj h)
        exact ⟨rfl, sample, rfl, rfl, rfl⟩
      · simp at h

theorem fresh_readSample {result : ReadResult} {fuel : Nat} (h : Fresh s)
    (hStep : readSampleStep cfg s result fuel = some s') : Fresh s' := by
  obtain ⟨hPc, pc, hPc', rfl⟩ := readSampleStep_cases hStep
  have hMark := h.mark
  have hNotEnd : s.servedToEnd = false := by
    by_contra hServed
    simpa [hPc, ProducerPc.hasRead] using (h.atEnd (by simpa using hServed)).2.2
  refine ⟨?_, fun t p pc hPush => ?_, fun t _ g hGroup b hMem => ?_, by simp [hNotEnd]⟩
  · simp only [List.length_append, List.length_singleton]
    omega
  · obtain ⟨hOrigin, sample, rfl, hSame⟩ := handleRead_push (hPc'.trans (congrArg some hPush))
    exact ⟨hOrigin ▸ hMark, sample, by simp [hOrigin], hSame⟩
  · exact (h.ring t (by simp [hPc, ProducerPc.dirty]) g hGroup b hMem).append result

/-- A signal of a group shows neither in what the producer has in hand nor in
what it has read. -/
theorem Fresh.signalled (h : Fresh s) {t : Track} (hReads : s'.reads = s.reads)
    (hMark : s'.seekMark = s.seekMark) (hServed : s'.servedToEnd = s.servedToEnd)
    (hDone : s'.isStreamDone = s.isStreamDone) (hFrames : KeepsFrames s.group s'.group)
    (hSignal : s'.producer = s.producer.signal t) : Fresh s' := by
  refine h.keep hReads hMark hServed hFrames ?_ ?_ ?_
  · rw [hSignal]
    exact fun _ _ _ hPush => signal_eq_push hPush
  all_goals
    rw [hSignal]
    have hCases := signal_cases s.producer t
    grind [ProducerPc.dirty, ProducerPc.hasRead]

/-- Steps of callers: the producer stays where it is. -/
theorem Fresh.stays (h : Fresh s) (hReads : s'.reads = s.reads)
    (hMark : s'.seekMark = s.seekMark) (hServed : s'.servedToEnd = s.servedToEnd)
    (hDone : s'.isStreamDone = s.isStreamDone) (hFrames : KeepsFrames s.group s'.group)
    (hProducer : s'.producer = s.producer) : Fresh s' := by
  refine h.keep hReads hMark hServed hFrames ?_ ?_ ?_
  · rw [hProducer]
    exact fun _ _ pc hPush => ⟨pc, hPush⟩
  · simp [hProducer]
  · exact fun hEnd hIdle => ⟨hDone.trans hEnd, hProducer ▸ hIdle⟩

theorem fresh_seeker (h : Fresh s) (hStep : seekerStep s = some s') : Fresh s' := by
  cases seeks_of_step hStep with
  | notify hSeeker hFree =>
      rename_i t
      exact @Fresh.signalled s _ h t rfl rfl rfl rfl
        (keepsFrames_onGroup t fun _ _ _ hMem => hMem) rfl
  | enter hSeeker hFree | wake hSeeker hFree =>
      exact h.stays rfl rfl rfl rfl (KeepsFrames.refl _) rfl
  | wait hSeeker =>
      exact h.stays rfl rfl rfl rfl (KeepsFrames.refl _) rfl

theorem newGroup_frames (t : Track) : (newGroup t).frames = [] := by
  cases t <;> rfl

/-- The groups that `start` creates are empty. -/
theorem startStep_frames (hStep : startStep cfg s = some s') : KeepsFrames s.group s'.group := by
  rcases startStep_cases hStep with rfl | ⟨_, _, _, rfl⟩
  · exact KeepsFrames.refl _
  · intro t g hGroup b hMem
    dsimp only at hGroup
    split_ifs at hGroup
    · obtain rfl := Option.some.inj hGroup
      simp [newGroup_frames] at hMem
    · exact ⟨g, hGroup, hMem⟩

theorem fresh_start (hCoherent : Coherent s) (h : Fresh s) (hStep : startStep cfg s = some s') :
    Fresh s' := by
  have hFrames := startStep_frames hStep
  rcases startStep_cases hStep with rfl | ⟨hStopped, hIdle, _, rfl⟩
  · exact h
  · have hPc := (hCoherent.stopped hStopped hIdle).1
    refine h.keep rfl rfl rfl hFrames (by simp) ?_ ?_
    · rcases hPc with hPc | hPc <;> simp [hPc, ProducerPc.dirty]
    · exact fun hDone _ => ⟨hDone, rfl⟩

theorem controlStep_frames (hStep : controlStep s = some s') : KeepsFrames s.group s'.group := by
  cases controls_of_step hStep with
  | notifyStop hControl => exact keepsFrames_onGroup _ fun _ _ _ hMem => hMem
  | join hControl hExited => exact KeepsFrames.refl _
  | delete hControl hFree =>
      intro u g hGroup b hMem
      dsimp only at hGroup
      rw [Function.update_apply] at hGroup
      split_ifs at hGroup
      exact ⟨g, hGroup, hMem⟩

theorem fresh_control (h : Fresh s) (hStep : controlStep s = some s') : Fresh s' := by
  have hFrames := controlStep_frames hStep
  cases controls_of_step hStep with
  | notifyStop hControl => exact h.signalled rfl rfl rfl rfl hFrames rfl
  | join hControl hExited | delete hControl hFree => exact h.stays rfl rfl rfl rfl hFrames rfl

/-- A reader takes frames out of a group and puts none in. -/
theorem popStep_frames {t : Track} {g : PPMediaBufferGroup} (hGroup : s.group t = some g)
    (hStep : popStep s t g = some s') : KeepsFrames s.group s'.group := by
  unfold popStep at hStep
  cases hReader : s.reader t with
  | idle | returned | dangling => simp [hReader] at hStep
  | headTest =>
      simp only [hReader] at hStep
      cases hFrames : g.frames with
      | nil =>
          simp only [hFrames, Option.some.injEq] at hStep
          subst hStep
          exact KeepsFrames.refl _
      | cons b rest =>
          simp only [hFrames, Option.some.injEq] at hStep
          subst hStep
          refine keepsFrames_onGroup t fun old hOld c hMem => ?_
          obtain rfl := Option.some.inj (hGroup.symm.trans hOld)
          rw [hFrames]
          exact List.mem_cons_of_mem b hMem
  | rearm =>
      simp only [hReader, Option.some.injEq] at hStep
      subst hStep
      exact keepsFrames_onGroup t fun _ _ _ hMem => hMem
  | enter | asleep | whileTest | stopTest | doneTest =>
      simp only [hReader] at hStep
      split_ifs at hStep
      all_goals
        obtain rfl := Option.some.inj hStep
        exact KeepsFrames.refl _

theorem readerStep_frames {t : Track} (hStep : readerStep s t = some s') :
    KeepsFrames s.group s'.group := by
  unfold readerStep at hStep
  cases hGroup : s.group t with
  | some g =>
      simp only [hGroup] at hStep
      exact popStep_frames hGroup hStep
  | none =>
      simp only [hGroup] at hStep
      split at hStep
      all_goals first
        | obtain rfl := Option.some.inj hStep
          exact KeepsFrames.refl _
        | simp at hStep

/-- Readers and releases add no frame. -/
theorem frames_of_consumer {act : Act}
    (hAct : (∃ t, act = .read t) ∨ (∃ t, act = .reader t) ∨ (∃ t index, act = .release t index) ∨
      (∃ t index, act = .releaseOrphan t index) ∨ act = .spuriousWake)
    (hStep : liveStep cfg s act = some s') : KeepsFrames s.group s'.group := by
  rcases hAct with ⟨t, rfl⟩ | ⟨t, rfl⟩ | ⟨t, index, rfl⟩ | ⟨t, index, rfl⟩ | rfl
  · simp only [liveStep, readStep] at hStep
    split at hStep
    all_goals first
      | obtain rfl := Option.some.inj hStep
        exact KeepsFrames.refl _
      | simp at hStep
  · exact readerStep_frames hStep
  · simp only [liveStep, releaseStep, Option.map_eq_some_iff] at hStep
    obtain ⟨b, _, rfl⟩ := hStep
    exact keepsFrames_onGroup t fun _ _ _ hMem => hMem
  · simp only [liveStep] at hStep
    split_ifs at hStep
    obtain rfl := Option.some.inj hStep
    exact KeepsFrames.refl _
  · simp only [liveStep] at hStep
    split at hStep
    case h_2 => simp at hStep
    case h_1 =>
      obtain rfl := Option.some.inj hStep
      exact KeepsFrames.refl _

theorem fresh_step {act : Act} (hCoherent : Coherent s) (h : Fresh s)
    (hStep : step cfg s act = some s') : Fresh s' := by
  unfold step at hStep
  split_ifs at hStep
  cases act with
  | producer => exact fresh_producer h hStep
  | readSample result fuel => exact fresh_readSample h hStep
  | seekTo seekTimeUs =>
      obtain ⟨-, rfl⟩ := seekTo_cases hStep
      exact h.stays rfl rfl rfl rfl (KeepsFrames.refl _) rfl
  | seeker => exact fresh_seeker h hStep
  | start => exact fresh_start hCoherent h hStep
  | stop =>
      rcases stopStep_cases hStep with rfl | ⟨_, _, rfl⟩
      · exact h
      · exact h.stays rfl rfl rfl rfl (KeepsFrames.refl _) rfl
  | control => exact fresh_control h hStep
  | spuriousWake | read | reader | release | releaseOrphan =>
      have hFrames := frames_of_consumer (by simp) hStep
      obtain ⟨hQuiet, hSame | ⟨t, hSignal⟩ | ⟨t, p, signalled, hBefore, hAfter⟩⟩ :=
        quiet_of_consumer (by simp) hStep
      · exact h.stays hQuiet.reads hQuiet.seekMark hQuiet.servedToEnd hQuiet.isStreamDone hFrames
          hSame
      · exact h.signalled hQuiet.reads hQuiet.seekMark hQuiet.servedToEnd hQuiet.isStreamDone hFrames
          hSignal
      · refine h.keep hQuiet.reads hQuiet.seekMark hQuiet.servedToEnd hFrames ?_ ?_ ?_ <;>
          simp [hBefore, hAfter, hQuiet.isStreamDone, ProducerPc.dirty, ProducerPc.hasRead]

theorem run_fresh {guard : State → Act → Prop} {acts : List Act} {s : State}
    (run : Run (step cfg) guard initial acts s) : Fresh s :=
  run.invariant_of (fun _ _ => run_coherent) fresh_initial
    fun _ _ _ hCoherent h _ hStep => fresh_step hCoherent h hStep

end Steps

/-- The seek being served has been passed on and the groups are being emptied. -/
def ProducerPc.passedOn : ProducerPc → Bool
  | .seekClear _ | .seekDone _ | .seekFinish => true
  | _ => false

theorem ProducerPc.holdsLock_of_passedOn (pc : ProducerPc) (h : pc.passedOn = true) :
    pc.holdsLock = true := by
  cases pc <;> simp_all [passedOn, holdsLock]

/-- One while a call of `seekTo` waits for its seek to be passed on. -/
def State.unserved (s : State) : Nat :=
  if s.seeker.underWay && !s.producer.passedOn then 1 else 0

/-- After a number of calls of `seekTo`: each has been served by a seek of its
own, up to one under way, and the last one as its time asks. -/
structure Served (cfg : Config) (calls : Nat) (s : State) : Prop where
  count : s.seeksServed + s.unserved = calls
  branch : ((∃ t, s.producer = .seekEnd t) ∨ s.producer = .seekEndFlag → s.seeksToEnd cfg) ∧
    (s.producer = .seekBox → ¬ s.seeksToEnd cfg)
  target : s.unserved = 0 → 0 < calls →
    s.servedTime = s.startTime ∧ (s.servedToEnd = true ↔ s.seeksToEnd cfg)

theorem served_initial (cfg : Config) : Served cfg 0 initial := by
  constructor <;> simp [initial, State.unserved, SeekerPc.underWay]

section Served

variable {cfg : Config} {calls : Nat} {s s' : State}

/-- Steps that neither ask for a seek nor pass one on. -/
theorem Served.keep (h : Served cfg calls s) (hServed : s'.seeksServed = s.seeksServed)
    (hServedTime : s'.servedTime = s.servedTime) (hEnd : s'.servedToEnd = s.servedToEnd)
    (hTime : s'.mSeekTimeUs = s.mSeekTimeUs) (hUnserved : s'.unserved = s.unserved)
    (hBranch : s'.producer = s.producer ∨ ((∀ t, s'.producer ≠ .seekEnd t) ∧
      s'.producer ≠ .seekEndFlag ∧ s'.producer ≠ .seekBox)) : Served cfg calls s' := by
  have hStart : s'.startTime = s.startTime := by rw [State.startTime, hTime, State.startTime]
  have hToEnd : s'.seeksToEnd cfg ↔ s.seeksToEnd cfg := by
    rw [State.seeksToEnd, hStart, State.seeksToEnd]
  refine ⟨?_, ?_, ?_⟩
  · rw [hServed, hUnserved]
    exact h.count
  · have hOld := h.branch
    rw [hToEnd]
    grind
  · rw [hUnserved, hServedTime, hStart, hEnd, hToEnd]
    exact h.target

/-- Where the producer can go without passing a seek on. -/
theorem Served.move (h : Served cfg calls s) (hServed : s'.seeksServed = s.seeksServed)
    (hServedTime : s'.servedTime = s.servedTime) (hEnd : s'.servedToEnd = s.servedToEnd)
    (hTime : s'.mSeekTimeUs = s.mSeekTimeUs) (hSeeker : s'.seeker = s.seeker)
    (hPassed : s'.producer.passedOn = s.producer.passedOn)
    (hBranch : s'.producer = s.producer ∨ ((∀ t, s'.producer ≠ .seekEnd t) ∧
      s'.producer ≠ .seekEndFlag ∧ s'.producer ≠ .seekBox)) : Served cfg calls s' :=
  h.keep hServed hServedTime hEnd hTime
    (by rw [State.unserved, hSeeker, hPassed, State.unserved]) hBranch

theorem Served.signalled (h : Served cfg calls s) {t : Track}
    (hServed : s'.seeksServed = s.seeksServed) (hServedTime : s'.servedTime = s.servedTime)
    (hEnd : s'.servedToEnd = s.servedToEnd) (hTime : s'.mSeekTimeUs = s.mSeekTimeUs)
    (hUnderWay : s'.seeker.underWay = s.seeker.underWay)
    (hSignal : s'.producer = s.producer.signal t) : Served cfg calls s' := by
  have hCases := signal_cases s.producer t
  refine h.keep hServed hServedTime hEnd hTime ?_ ?_
  · rw [State.unserved, State.unserved, hUnderWay]
    grind [ProducerPc.passedOn]
  · grind

theorem served_producer (hCoherent : Coherent s) (h : Served cfg calls s)
    (hStep : producerStep cfg s = some s') : Served cfg calls s' := by
  have hExclusive := hCoherent.exclusive
  have hCount := h.count
  cases produces_of_step hStep with
  | push hPc hGroup hPush =>
      obtain ⟨hQuiet, hNext⟩ := pushStep_quiet hPush
      refine h.move hQuiet.seeksServed hQuiet.servedTime hQuiet.servedToEnd hQuiet.mSeekTimeUs
          hQuiet.seeker ?_ ?_ <;>
        rcases hNext with hNext | ⟨_, hNext⟩ <;> simp [hNext, hPc, ProducerPc.passedOn]
  | pushError hPc hGroup hPush =>
      rcases pushErrorStep_cases hPush with rfl | rfl <;>
        exact h.move rfl rfl rfl rfl rfl (by simp [hPc, ProducerPc.passedOn]) (by simp)
  | seekBranch hPc =>
      have hAsleep := hExclusive (by rw [hPc]; rfl)
      simp only [State.unserved, hPc, hAsleep, SeekerPc.underWay, ProducerPc.passedOn] at hCount
      by_cases hEnd : s.seeksToEnd cfg
      · refine ⟨?_, ⟨fun _ => hEnd, by simp [hEnd]⟩, ?_⟩
        · simpa [State.unserved, hEnd, hAsleep, SeekerPc.underWay, ProducerPc.passedOn] using hCount
        · simp [State.unserved, hEnd, hAsleep, SeekerPc.underWay, ProducerPc.passedOn]
      · refine ⟨?_, ⟨by simp [hEnd], fun _ => hEnd⟩, ?_⟩
        · simpa [State.unserved, hEnd, hAsleep, SeekerPc.underWay, ProducerPc.passedOn] using hCount
        · simp [State.unserved, hEnd, hAsleep, SeekerPc.underWay, ProducerPc.passedOn]
  | seekEndVideo hPc | seekEndAudio hPc =>
      have hBranch := h.branch.1 (Or.inl ⟨_, hPc⟩)
      have hAsleep := hExclusive (by rw [hPc]; rfl)
      refine ⟨?_, ⟨fun _ => hBranch, by simp⟩, ?_⟩ <;>
        simp_all [State.unserved, State.onGroup, SeekerPc.underWay, ProducerPc.passedOn]
  | seekEndFlag hPc =>
      have hBranch := h.branch.1 (Or.inr hPc)
      have hAsleep := hExclusive (by rw [hPc]; rfl)
      refine ⟨?_, by simp, fun _ _ => ⟨rfl, iff_of_true rfl hBranch⟩⟩
      simpa [State.unserved, hAsleep, hPc, SeekerPc.underWay, ProducerPc.passedOn] using hCount
  | seekBox hPc =>
      have hBranch := h.branch.2 hPc
      have hAsleep := hExclusive (by rw [hPc]; rfl)
      refine ⟨?_, by simp, fun _ _ => ⟨rfl, iff_of_false (by simp) hBranch⟩⟩
      simpa [State.unserved, hAsleep, hPc, SeekerPc.underWay, ProducerPc.passedOn] using hCount
  | seekFinish hPc =>
      have hAsleep := hExclusive (by rw [hPc]; rfl)
      refine h.keep rfl rfl rfl rfl ?_ (by simp)
      simp [State.unserved, hAsleep, hPc, SeekerPc.signal, SeekerPc.underWay, ProducerPc.passedOn]
  | seekClear hPc hFree | seekDone hPc hFree =>
      rename_i t
      cases t <;> exact h.move rfl rfl rfl rfl rfl (by simp [hPc, ProducerPc.passedOn]) (by simp)
  | publishVideo hPc | publishAudio hPc =>
      exact h.move rfl rfl rfl rfl rfl (by simp [hPc, ProducerPc.passedOn]) (by simp)
  | seekLock hPc hFree =>
      exact h.move rfl rfl rfl rfl rfl (by simp [hPc, ProducerPc.passedOn]) (by simp)
  | loopTest hPc | seekTest hPc | doneTest hPc =>
      refine h.move rfl rfl rfl rfl rfl ?_ ?_ <;> split_ifs <;> simp [hPc, ProducerPc.passedOn]
  | publishFlag hPc | exiting hPc =>
      exact h.move rfl rfl rfl rfl rfl (by simp [hPc, ProducerPc.passedOn]) (by simp)

theorem served_seeker (h : Served cfg calls s) (hStep : seekerStep s = some s') :
    Served cfg calls s' := by
  cases seeks_of_step hStep with
  | notify hSeeker hFree =>
      rename_i t
      refine @Served.signalled _ _ s _ h t rfl rfl rfl rfl ?_ rfl
      cases t <;> simp [hSeeker, SeekerPc.underWay]
  | enter hSeeker hFree | wake hSeeker hFree =>
      refine h.keep rfl rfl rfl rfl ?_ (Or.inl rfl)
      simp_all [State.unserved, SeekerPc.underWay]
  | wait hSeeker =>
      refine h.keep rfl rfl rfl rfl ?_ (Or.inl rfl)
      simp [State.unserved, hSeeker, SeekerPc.underWay]

theorem served_seekTo {seekTimeUs : Int} (hCoherent : Coherent s) (h : Served cfg calls s)
    (hIdle : s.seeker = .idle) :
    Served cfg (calls + 1) { s with mSeekTimeUs := seekTimeUs, seeker := .enter } := by
  have hHolds : s.producer.holdsLock = false := by
    by_contra hHolds
    simpa [hIdle] using hCoherent.exclusive (by simpa using hHolds)
  have hPassed : s.producer.passedOn = false := by
    by_contra hPassed
    simp [s.producer.holdsLock_of_passedOn (by simpa using hPassed)] at hHolds
  have hCount := h.count
  refine ⟨?_, ?_, ?_⟩
  · simpa [State.unserved, hIdle, hPassed, SeekerPc.underWay] using hCount
  · dsimp only
    constructor
    · rintro (⟨t, hPc⟩ | hPc) <;> simp [hPc, ProducerPc.holdsLock] at hHolds
    · intro hPc
      simp [hPc, ProducerPc.holdsLock] at hHolds
  · simp [State.unserved, hPassed, SeekerPc.underWay]

theorem served_step {act : Act} (hCoherent : Coherent s) (h : Served cfg calls s)
    (hStep : step cfg s act = some s') :
    Served cfg (calls + if act.isSeekTo then 1 else 0) s' := by
  unfold step at hStep
  split_ifs at hStep
  cases act with
  | producer => exact served_producer hCoherent h hStep
  | readSample result fuel =>
      obtain ⟨hPc, pc, hPc', rfl⟩ := readSampleStep_cases hStep
      have hCases := handleRead_cases hPc'
      refine h.move rfl rfl rfl rfl rfl ?_ ?_ <;> grind [ProducerPc.passedOn]
  | seekTo seekTimeUs =>
      obtain ⟨hSeeker, rfl⟩ := seekTo_cases hStep
      exact served_seekTo hCoherent h hSeeker
  | seeker => exact served_seeker h hStep
  | start =>
      rcases startStep_cases hStep with rfl | ⟨hStopped, hIdle, _, rfl⟩
      · exact h
      · have hPc := (hCoherent.stopped hStopped hIdle).1
        refine h.move rfl rfl rfl rfl rfl ?_ (by simp)
        rcases hPc with hPc | hPc <;> simp [hPc, ProducerPc.passedOn]
  | stop =>
      rcases stopStep_cases hStep with rfl | ⟨_, _, rfl⟩
      · exact h
      · exact h.move rfl rfl rfl rfl rfl rfl (Or.inl rfl)
  | control =>
      cases controls_of_step hStep with
      | notifyStop hControl => exact h.signalled rfl rfl rfl rfl rfl rfl
      | join hControl hExited | delete hControl hFree =>
          exact h.move rfl rfl rfl rfl rfl rfl (Or.inl rfl)
  | spuriousWake | read | reader | release | releaseOrphan =>
      obtain ⟨hQuiet, hSame | ⟨t, hSignal⟩ | ⟨t, p, signalled, hBefore, hAfter⟩⟩ :=
        quiet_of_consumer (by simp) hStep
      · exact h.move hQuiet.seeksServed hQuiet.servedTime hQuiet.servedToEnd hQuiet.mSeekTimeUs
          hQuiet.seeker
          (by rw [hSame]) (Or.inl hSame)
      · exact h.signalled hQuiet.seeksServed hQuiet.servedTime hQuiet.servedToEnd hQuiet.mSeekTimeUs
          (by rw [hQuiet.seeker]) hSignal
      · exact h.move hQuiet.seeksServed hQuiet.servedTime hQuiet.servedToEnd hQuiet.mSeekTimeUs
          hQuiet.seeker
          (by simp [hBefore, hAfter, ProducerPc.passedOn]) (by simp [hAfter])

theorem run_servedFresh {guard : State → Act → Prop} {acts : List Act}
    (run : Run (step cfg) guard initial acts s) : Served cfg (acts.countP Act.isSeekTo) s := by
  induction run with
  | nil => exact served_initial cfg
  | snoc prior meets last ih =>
      rw [List.countP_append, List.countP_singleton]
      exact served_step (run_coherent prior) ih last

end Served

section Between

variable {cfg : Config} {s s' : State}

theorem producerStep_requests (hStep : producerStep cfg s = some s') :
    s'.mSeekTimeUs = s.mSeekTimeUs ∧ s'.reads = s.reads ∧
      (s.producer.holdsLock = false → s'.seeker = s.seeker ∧ s'.seekMark = s.seekMark) := by
  cases produces_of_step hStep with
  | push hPc hGroup hPush =>
      have hQuiet := (pushStep_quiet hPush).1
      exact ⟨hQuiet.mSeekTimeUs, hQuiet.reads, fun _ => ⟨hQuiet.seeker, hQuiet.seekMark⟩⟩
  | pushError hPc hGroup hPush =>
      rcases pushErrorStep_cases hPush with rfl | rfl <;> simp
  | seekEndVideo hPc | seekEndAudio hPc | publishVideo hPc | publishAudio hPc =>
      simp [State.onGroup]
  | seekLock hPc hFree | seekClear hPc hFree | seekDone hPc hFree =>
      simp [State.onGroup]
  | seekEndFlag hPc | seekBox hPc | seekFinish hPc =>
      simp [hPc, ProducerPc.holdsLock]
  | loopTest hPc | seekTest hPc | seekBranch hPc | doneTest hPc | publishFlag hPc | exiting hPc =>
      simp

/-- Only a call of `seekTo` changes the time to seek to. -/
theorem mSeekTimeUs_step {act : Act} (hAct : act.isSeekTo = false)
    (hStep : step cfg s act = some s') : s'.mSeekTimeUs = s.mSeekTimeUs := by
  unfold step at hStep
  split_ifs at hStep
  cases act with
  | producer => exact (producerStep_requests hStep).1
  | readSample result fuel =>
      obtain ⟨-, pc, _, rfl⟩ := readSampleStep_cases hStep
      rfl
  | seekTo => simp [Act.isSeekTo] at hAct
  | seeker =>
      simp only [liveStep, seekerStep] at hStep
      grind [State.onGroup]
  | start => rcases startStep_cases hStep with rfl | ⟨_, _, _, rfl⟩ <;> rfl
  | stop => rcases stopStep_cases hStep with rfl | ⟨_, _, rfl⟩ <;> rfl
  | control =>
      simp only [liveStep, controlStep] at hStep
      grind [State.onGroup]
  | spuriousWake | read | reader | release | releaseOrphan =>
      exact (quiet_of_consumer (by simp) hStep).1.mSeekTimeUs

theorem mSeekTimeUs_seekTo {timeUs : Int} (hStep : step cfg s (.seekTo timeUs) = some s') :
    s'.mSeekTimeUs = timeUs := by
  unfold step at hStep
  split_ifs at hStep
  simp only [liveStep] at hStep
  split at hStep
  case h_2 => simp at hStep
  case h_1 =>
    obtain rfl := Option.some.inj hStep
    rfl

/-- Results are only added. -/
theorem reads_step {act : Act} (hStep : step cfg s act = some s') :
    s.reads <+: s'.reads := by
  unfold step at hStep
  split_ifs at hStep
  cases act with
  | producer => exact (producerStep_requests hStep).2.1 ▸ List.prefix_refl _
  | readSample result fuel =>
      obtain ⟨-, pc, _, rfl⟩ := readSampleStep_cases hStep
      exact List.prefix_append _ _
  | seekTo =>
      obtain ⟨-, rfl⟩ := seekTo_cases hStep
      exact List.prefix_refl _
  | seeker =>
      cases seeks_of_step hStep with
      | enter hSeeker hFree | notify hSeeker hFree | wake hSeeker hFree =>
          exact List.prefix_refl _
      | wait hSeeker =>
          exact List.prefix_refl _
  | start => rcases startStep_cases hStep with rfl | ⟨_, _, _, rfl⟩ <;> exact List.prefix_refl _
  | stop => rcases stopStep_cases hStep with rfl | ⟨_, _, rfl⟩ <;> exact List.prefix_refl _
  | control =>
      cases controls_of_step hStep with
      | notifyStop hControl =>
          exact List.prefix_refl _
      | join hControl hExited | delete hControl hFree =>
          exact List.prefix_refl _
  | spuriousWake | read | reader | release | releaseOrphan =>
      exact (quiet_of_consumer (by simp) hStep).1.reads ▸ List.prefix_refl _

/-- Between two seeks the mark stays and results are only added. -/
theorem idle_step {act : Act} (hCoherent : Coherent s) (hIdle : s.seeker = .idle)
    (hAct : act.isSeekTo = false) (hStep : step cfg s act = some s') :
    s'.seeker = .idle ∧ s'.seekMark = s.seekMark ∧
      (s'.reads = s.reads ∨ ∃ result, s'.reads = s.reads ++ [result]) := by
  have hHolds : s.producer.holdsLock = false := by
    by_contra hHolds
    simpa [hIdle] using hCoherent.exclusive (by simpa using hHolds)
  unfold step at hStep
  split_ifs at hStep
  cases act with
  | producer =>
      obtain ⟨_, hReads, hSame⟩ := producerStep_requests hStep
      exact ⟨(hSame hHolds).1.trans hIdle, (hSame hHolds).2, Or.inl hReads⟩
  | readSample result fuel =>
      obtain ⟨-, pc, _, rfl⟩ := readSampleStep_cases hStep
      exact ⟨hIdle, rfl, Or.inr ⟨result, rfl⟩⟩
  | seekTo => simp [Act.isSeekTo] at hAct
  | seeker => simp [liveStep, seekerStep, hIdle] at hStep
  | start =>
      rcases startStep_cases hStep with rfl | ⟨_, _, _, rfl⟩ <;> exact ⟨hIdle, rfl, Or.inl rfl⟩
  | stop =>
      rcases stopStep_cases hStep with rfl | ⟨_, _, rfl⟩ <;> exact ⟨hIdle, rfl, Or.inl rfl⟩
  | control =>
      simp only [liveStep, controlStep] at hStep
      grind [State.onGroup]
  | spuriousWake | read | reader | release | releaseOrphan =>
      have hQuiet := (quiet_of_consumer (by simp) hStep).1
      exact ⟨hQuiet.seeker.trans hIdle, hQuiet.seekMark, Or.inl hQuiet.reads⟩

end Between

section Held

variable {cfg : Config} {s s' : State} {t : Track}

/-- The actions that take frames from a group, give them back or leave them behind. -/
def Act.movesFrames : Act → Bool
  | .reader _ | .release _ _ | .control => true
  | _ => false

theorem held_step {act : Act} (hAct : act.movesFrames = false) (hStep : step cfg s act = some s') :
    s'.held = s.held := by
  unfold step at hStep
  split_ifs at hStep
  cases act with
  | reader | release | control => simp [Act.movesFrames] at hAct
  | producer =>
      cases produces_of_step hStep with
      | push hPc hGroup hPush =>
          unfold pushStep at hPush
          grind [State.onGroup]
      | pushError hPc hGroup hPush => rcases pushErrorStep_cases hPush with rfl | rfl <;> rfl
      | _ => rfl
  | readSample result fuel =>
      obtain ⟨-, pc, -, rfl⟩ := readSampleStep_cases hStep
      rfl
  | seekTo seekTimeUs =>
      obtain ⟨-, rfl⟩ := seekTo_cases hStep
      rfl
  | seeker => cases seeks_of_step hStep <;> rfl
  | start => rcases startStep_cases hStep with rfl | ⟨-, -, -, rfl⟩ <;> rfl
  | stop => rcases stopStep_cases hStep with rfl | ⟨-, -, rfl⟩ <;> rfl
  | spuriousWake | read | releaseOrphan =>
      simp only [liveStep, readStep] at hStep
      grind [State.setReader]

theorem held_release {index : Nat} (hStep : step cfg s (.release t index) = some s') :
    s'.held = Function.update s.held t ((s.held t).eraseIdx index) := by
  unfold step at hStep
  split_ifs at hStep
  obtain ⟨b, -, rfl⟩ := Option.map_eq_some_iff.mp hStep
  rfl

/-- A stop only leaves frames behind. -/
theorem held_control (hStep : step cfg s .control = some s') (u : Track) :
    s'.held u = s.held u ∨ s'.held u = [] := by
  unfold step at hStep
  split_ifs at hStep
  cases controls_of_step hStep with
  | notifyStop | join => exact Or.inl rfl
  | @delete t hControl hFree =>
      by_cases hHere : u = t
      · exact Or.inr (by simp [hHere])
      · exact Or.inl (by simp [hHere])

/-- A step of a reader returns the first frame of the group, or takes none. -/
theorem held_reader (hStep : step cfg s (.reader t) = some s') :
    (s'.held = s.held ∧ ∀ b, s'.reader t ≠ .returned (.frame b)) ∨
      ∃ g b, s.group t = some g ∧ b ∈ g.frames ∧ s'.reader t = .returned (.frame b) ∧
        s'.held = Function.update s.held t (s.held t ++ [b]) := by
  unfold step at hStep
  split_ifs at hStep
  simp only [liveStep, readerStep] at hStep
  cases hGroup : s.group t with
  | none =>
      simp only [hGroup] at hStep
      split at hStep
      all_goals first
        | obtain rfl := Option.some.inj hStep
          exact Or.inl ⟨rfl, by simp [State.setReader]⟩
        | simp at hStep
  | some g =>
      simp only [hGroup] at hStep
      unfold popStep at hStep
      cases hReader : s.reader t with
      | idle | returned | dangling => simp [hReader] at hStep
      | headTest =>
          simp only [hReader] at hStep
          cases hFrames : g.frames with
          | nil =>
              simp only [hFrames, Option.some.injEq] at hStep
              subst hStep
              exact Or.inl ⟨rfl, by simp [State.setReader]⟩
          | cons b rest =>
              simp only [hFrames, Option.some.injEq] at hStep
              subst hStep
              exact Or.inr ⟨g, b, rfl, by simp [hFrames], by simp [State.setReader], rfl⟩
      | rearm =>
          simp only [hReader, Option.some.injEq] at hStep
          subst hStep
          exact Or.inl ⟨rfl, by simp [State.setReader]⟩
      | enter | asleep | whileTest | stopTest | doneTest =>
          simp only [hReader] at hStep
          split_ifs at hStep
          all_goals
            obtain rfl := Option.some.inj hStep
            exact Or.inl ⟨rfl, by simp [State.setReader]⟩

/-- A call of `read` returns no frame at once. -/
theorem reader_read (hStep : step cfg s (.read t) = some s') (b : MediaBuffer) :
    s'.reader t ≠ .returned (.frame b) := by
  unfold step at hStep
  split_ifs at hStep
  simp only [liveStep, readStep] at hStep
  split at hStep
  all_goals first
    | obtain rfl := Option.some.inj hStep
      simp only [State.setReader, Function.update_self]
      split_ifs <;> simp
    | simp at hStep

/-- A frame that a read hands out was in its group. -/
theorem reader_frame {b : MediaBuffer} {inner : Act}
    (hInner : inner = .read t ∨ inner = .reader t) (hStep : step cfg s inner = some s')
    (hReturned : s'.reader t = .returned (.frame b)) :
    ∃ g, s.group t = some g ∧ b ∈ g.frames := by
  rcases hInner with rfl | rfl
  · exact absurd hReturned (reader_read hStep b)
  · rcases held_reader hStep with ⟨-, hNone⟩ | ⟨g, c, hGroup, hMem, hTaken, -⟩
    · exact absurd hReturned (hNone b)
    · obtain rfl : c = b := by simpa [hTaken] using hReturned
      exact ⟨g, hGroup, hMem⟩

end Held

end Meet.PPExtractor
