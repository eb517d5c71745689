import Meet.PPExtractor.Announce

/-! The three copies of the end of the stream: `isStreamDone` of the extractor
and `mIsStreamDone` of each group. Only the producer sets them; a seek resets
those of the groups in `notify_seekstart` and the one of the extractor in the
seek branch, and `start` resets none of them. -/
namespace Meet.PPExtractor

/-- A result that ends the stream is among those from `mark` on. -/
def EndRead (reads : List ReadResult) (mark : Nat) : Prop :=
  ∃ k result, mark ≤ k ∧ reads[k]? = some result ∧ result.ends = true

def DoneIs (group : Track → Option PPMediaBufferGroup) (t : Track) (done : Bool) : Prop :=
  ∀ g, group t = some g → g.mIsStreamDone = done

/-- What the steps have to avoid: starting again with the stream done and no
seek pending; publishing an end read before a pending seek to a group that the
seek has already reset, unless that seek is to the end; and samples of other
streams, which take the way of an error. -/
def FlagsGuard (cfg : Config) (s : State) : Act → Prop
  | .start => s.mStarted = false → s.isStreamDone = true → s.isSeeking = true
  | .producer => ∀ t, s.producer = .publish t → ∀ g ∈ s.group t, g.mIsSeeking = true →
      s.seeksToEnd cfg
  | .readSample (.sample sample) _ =>
      sample.streamIndex = cfg.mVideoTrackID ∨ sample.streamIndex = cfg.mAudioTrackID
  | _ => True

instance (cfg : Config) (s : State) (act : Act) : Decidable (FlagsGuard cfg s act) :=
  match act with
  | .start => inferInstanceAs (Decidable (_ → _ → _))
  | .producer => decidable_of_iff (_ ∧ _) Track.forall.symm
  | .readSample (.sample _) _ => inferInstanceAs (Decidable (_ ∨ _))
  | .readSample .wouldBlock _ | .readSample .streamEnd _ | .readSample (.error _) _
  | .spuriousWake | .seekTo _ | .seeker | .stop | .control | .read _ | .reader _ | .release _ _
  | .releaseOrphan _ _ => .isTrue trivial

/-- The flags agree at the top of the loop, and after a seek that was not to
the end a group is done only when an end has been read since. -/
structure FlagsAgree (s : State) : Prop where
  agree : s.producer = .loopTest → s.isSeeking = false → ∀ t, DoneIs s.group t s.isStreamDone
  since_seek : s.isSeeking = false → s.servedToEnd = false → ∀ t, ¬ DoneIs s.group t false →
    EndRead s.reads s.seekMark

/-- The producer, left alone, is about to read. -/
def ReadsNext (cfg : Config) (s : State) : Prop :=
  (exec (step cfg) s [.producer, .producer, .producer]).map State.producer = some .reading

/-- What the producer knows about the flags where it stands. -/
def FlagsAt (seeking done : Bool) (toEnd : Prop) (group : Track → Option PPMediaBufferGroup) :
    ProducerPc → Prop
  | .loopTest | .seekTest | .doneTest => seeking = false → ∀ t, DoneIs group t done
  | .reading | .push _ _ _ | .pushError | .publish .video =>
      done = false ∧ (seeking = false → ∀ t, DoneIs group t false)
  | .publish .audio => done = false ∧ (seeking = false → DoneIs group .video true)
  | .publishFlag => seeking = false → ∀ t, DoneIs group t true
  | .seekBranch => toEnd ∨ ∀ t, DoneIs group t false
  | .seekEnd .audio => DoneIs group .video true
  | .seekEndFlag => ∀ t, DoneIs group t true
  | .seekBox => ∀ t, DoneIs group t false
  | .seekClear _ | .seekDone _ | .seekFinish => ∀ t, DoneIs group t done
  | .off | .seekLock | .seekEnd .video | .exiting | .exited | .crashed => True

structure FlagsInv (cfg : Config) (s : State) : Prop where
  flags : FlagsAt s.isSeeking s.isStreamDone (s.seeksToEnd cfg) s.group s.producer
  announced : s.producer.holdsLock = false → ∀ t, s.seeker.notified t = true →
    s.seeksToEnd cfg ∨ DoneIs s.group t false
  mark : s.seekMark ≤ s.reads.length
  publishing : (∃ t, s.producer = .publish t) ∨ s.producer = .publishFlag →
    EndRead s.reads s.seekMark
  ended : (∀ t, s.producer ≠ .seekEnd t) → s.producer ≠ .seekEndFlag →
    ∀ t, DoneIs s.group t false ∨ s.servedToEnd = true ∨ EndRead s.reads s.seekMark

theorem flagsInv_initial (cfg : Config) : FlagsInv cfg initial := by
  refine ⟨trivial, ?_, ?_, ?_, ?_⟩ <;> simp [initial, SeekerPc.notified, DoneIs]

section Steps

variable {cfg : Config} {s s' : State}

theorem DoneIs.same {t : Track} {done : Bool} (h : DoneIs s.group t done)
    (hSame : SameRequests s s') : DoneIs s'.group t done := by
  intro g' hGroup
  obtain ⟨g, hOld, hFlags⟩ := hSame.of_group hGroup
  rw [← h g hOld]
  exact (congrArg Prod.fst hFlags).symm

theorem doneIs_onGroup_self {f : PPMediaBufferGroup → PPMediaBufferGroup} {t : Track}
    {done : Bool} (h : ∀ g, (f g).mIsStreamDone = done) : DoneIs (s.onGroup t f).group t done := by
  intro g hGroup
  rw [State.onGroup_group, if_pos rfl, Option.map_eq_some_iff] at hGroup
  obtain ⟨old, _, rfl⟩ := hGroup
  exact h old

theorem DoneIs.onGroup {f : PPMediaBufferGroup → PPMediaBufferGroup} {t u : Track} {done : Bool}
    (h : DoneIs s.group u done) (hKeeps : u = t → ∀ g, (f g).mIsStreamDone = g.mIsStreamDone) :
    DoneIs (s.onGroup t f).group u done := by
  intro g hGroup
  rw [State.onGroup_group] at hGroup
  split_ifs at hGroup with hHere
  · subst hHere
    obtain ⟨old, hOld, rfl⟩ := Option.map_eq_some_iff.mp hGroup
    rw [hKeeps rfl, h old hOld]
  · exact h g hGroup

theorem FlagsAt.same {pc : ProducerPc}
    (h : FlagsAt s.isSeeking s.isStreamDone (s.seeksToEnd cfg) s.group pc) (hSame : SameRequests s s') :
    FlagsAt s'.isSeeking s'.isStreamDone (s'.seeksToEnd cfg) s'.group pc := by
  have hDone : ∀ {t done}, DoneIs s.group t done → DoneIs s'.group t done := fun h => h.same hSame
  rw [hSame.isSeeking, hSame.isStreamDone]
  cases pc with
  | loopTest | seekTest | doneTest => exact fun hIdle t => hDone (h hIdle t)
  | reading | push | pushError => exact ⟨h.1, fun hIdle t => hDone (h.2 hIdle t)⟩
  | publish t =>
      cases t with
      | video => exact ⟨h.1, fun hIdle t => hDone (h.2 hIdle t)⟩
      | audio => exact ⟨h.1, fun hIdle => hDone (h.2 hIdle)⟩
  | publishFlag => exact fun hIdle t => hDone (h hIdle t)
  | seekBranch => exact h.imp (hSame.seeksToEnd cfg).mpr fun hReset t => hDone (hReset t)
  | seekEnd t =>
      cases t with
      | video => trivial
      | audio => exact hDone h
  | seekEndFlag | seekBox | seekClear | seekDone | seekFinish => exact fun t => hDone (h t)
  | off | seekLock | exiting | exited | crashed => trivial

theorem FlagsInv.same (h : FlagsInv cfg s) (hSame : SameRequests s s')
    (hProducer : s'.producer = s.producer ∨ ∃ t p pc, s.producer = .push t p pc ∧
      (s'.producer = .loopTest ∨ ∃ pc', s'.producer = .push t p pc')) : FlagsInv cfg s' := by
  have hDone : ∀ {t done}, DoneIs s.group t done → DoneIs s'.group t done := fun h => h.same hSame
  have hEnd := hSame.seeksToEnd cfg
  refine ⟨?_, ?_, ?_, ?_, ?_⟩
  · have hFlags := h.flags.same hSame
    rcases hProducer with hStays | ⟨t, p, pc, hPush, hLoop | ⟨pc', hNext⟩⟩
    · rwa [hStays]
    · rw [hPush] at hFlags
      rw [hLoop]
      exact fun hIdle => hFlags.1 ▸ hFlags.2 hIdle
    · rw [hPush] at hFlags
      rwa [hNext]
  · intro hHolds t hNotified
    rw [hSame.seeker] at hNotified
    exact (h.announced (by grind [ProducerPc.holdsLock]) t hNotified).imp hEnd.mpr hDone
  · rw [hSame.seekMark, hSame.reads]
    exact h.mark
  · rw [hSame.seekMark, hSame.reads]
    have hPublishing := h.publishing
    grind
  · intro hEnd hFlag t
    rw [hSame.seekMark, hSame.reads, hSame.servedToEnd]
    exact (h.ended (by grind) (by grind) t).imp_left hDone

/-- Steps that only move the producer. -/
theorem FlagsInv.move (h : FlagsInv cfg s) {pc : ProducerPc}
    (hFlags : FlagsAt s.isSeeking s.isStreamDone (s.seeksToEnd cfg) s.group pc)
    (hHolds : pc.holdsLock = false → s.producer.holdsLock = false)
    (hPublish : (∀ t, pc ≠ .publish t) ∧ pc ≠ .publishFlag)
    (hEnded : (∀ t, s.producer ≠ .seekEnd t) ∧ s.producer ≠ .seekEndFlag) :
    FlagsInv cfg { s with producer := pc } := by
  exact ⟨hFlags, fun hPc => h.announced (hHolds hPc), h.mark, by simp [hPublish],
    fun _ _ => h.ended hEnded.1 hEnded.2⟩

/-- Entering the branch, every group has been told of the seek. -/
theorem FlagsInv.seekBranch (hCoherent : Coherent s) (h : FlagsInv cfg s)
    (hPc : s.producer = .seekLock) (hFree : s.seeker.holdsLock = false) :
    FlagsInv cfg { s with producer := .seekBranch } := by
  have hAsleep : s.seeker = .asleep false :=
    SeekerPc.eq_asleep (hCoherent.pending.symm.trans (hCoherent.seekLock hPc)) hFree
  refine h.move ?_ (by simp [hPc, ProducerPc.holdsLock]) (by simp) (by simp [hPc])
  by_cases hEnd : s.seeksToEnd cfg
  · exact Or.inl hEnd
  · refine Or.inr fun t => ?_
    have hNotified : s.seeker.notified t = true := by simp [hAsleep, SeekerPc.notified]
    exact (h.announced (by simp [hPc, ProducerPc.holdsLock]) t hNotified).resolve_left hEnd

/-- Publishing an end to a group. The guard is needed when the group has been
told of a seek already. -/
theorem FlagsInv.publish (hAnnounced : Announced s) (h : FlagsInv cfg s) {t : Track}
    {pc : ProducerPc} (hPc : s.producer = .publish t) (hGuard : FlagsGuard cfg s .producer)
    (hFlags : FlagsAt s.isSeeking s.isStreamDone (s.seeksToEnd cfg)
      (s.onGroup t (·.notifyStreamdone)).group pc) :
    FlagsInv cfg { s.onGroup t (·.notifyStreamdone) with producer := pc } := by
  have hRead := h.publishing (Or.inl ⟨t, hPc⟩)
  have hHolds : s.producer.holdsLock = false := by simp [hPc, ProducerPc.holdsLock]
  refine ⟨hFlags, fun _ u hNotified => ?_, h.mark, fun _ => hRead, fun _ _ _ => Or.inr (Or.inr hRead)⟩
  by_cases hHere : u = t
  · subst hHere
    have hSeeking := (hAnnounced.seeking hHolds u hNotified).resolve_left
      (by simp [hPc, ProducerPc.fresh])
    cases hGroup : s.group u with
    | none => exact Or.inr fun g hSome => by simp [State.onGroup_group, hGroup] at hSome
    | some g => exact Or.inl (hGuard u hPc g hGroup (hSeeking g hGroup))
  · exact (h.announced hHolds u hNotified).imp_right fun hDone =>
      hDone.onGroup fun hSame => absurd hSame hHere

theorem flagsInv_producer (hCoherent : Coherent s) (hAnnounced : Announced s) (h : FlagsInv cfg s)
    (hGuard : FlagsGuard cfg s .producer) (hStep : producerStep cfg s = some s') :
    FlagsInv cfg s' := by
  have hFlags := h.flags
  cases produces_of_step hStep with
  | push hPc hGroup hPush =>
      obtain ⟨hQuiet, hNext⟩ := pushStep_quiet hPush
      exact h.same hQuiet.toSameRequests (Or.inr ⟨_, _, _, hPc, hNext⟩)
  | pushError hPc hGroup hPush =>
      rw [hPc] at hFlags
      rcases pushErrorStep_cases hPush with rfl | rfl
      · exact h.move (fun hIdle => hFlags.1 ▸ hFlags.2 hIdle) (by simp [hPc, ProducerPc.holdsLock])
          (by simp) (by simp [hPc])
      · exact h.move trivial (by simp [hPc, ProducerPc.holdsLock]) (by simp) (by simp [hPc])
  | loopTest hPc | seekTest hPc | doneTest hPc =>
      rw [hPc] at hFlags
      refine h.move ?_ (by simp [hPc, ProducerPc.holdsLock]) ?_ (by simp [hPc]) <;>
        split_ifs <;> simp_all [FlagsAt]
  | seekLock hPc hFree => exact h.seekBranch hCoherent hPc hFree
  | seekBranch hPc =>
      rw [hPc] at hFlags
      refine h.move ?_ ?_ ?_ (by simp [hPc]) <;>
        split_ifs <;> simp_all [FlagsAt, ProducerPc.holdsLock]
  | exiting hPc =>
      exact ⟨trivial, fun _ => h.announced (by simp [hPc, ProducerPc.holdsLock]), h.mark, by simp,
        fun _ _ => h.ended (by simp [hPc]) (by simp [hPc])⟩
  | seekEndVideo hPc =>
      have hVideo : DoneIs (s.onGroup .video (·.notifyStreamdone)).group .video true :=
        doneIs_onGroup_self fun _ => rfl
      exact ⟨hVideo, by simp [ProducerPc.holdsLock], h.mark, by simp, by simp⟩
  | seekEndAudio hPc =>
      rw [hPc] at hFlags
      have hBoth : ∀ t, DoneIs (s.onGroup .audio (·.notifyStreamdone)).group t true :=
        Track.forall.mpr ⟨hFlags.onGroup (by simp), doneIs_onGroup_self fun _ => rfl⟩
      exact ⟨hBoth, by simp [ProducerPc.holdsLock], h.mark, by simp, by simp⟩
  | seekEndFlag hPc =>
      rw [hPc] at hFlags
      exact ⟨hFlags, by simp [ProducerPc.holdsLock], Nat.le_refl _, by simp, by simp⟩
  | seekBox hPc =>
      rw [hPc] at hFlags
      exact ⟨hFlags, by simp [ProducerPc.holdsLock], Nat.le_refl _, by simp,
        fun _ _ t => Or.inl (hFlags t)⟩
  | seekClear hPc hFree =>
      rw [hPc] at hFlags
      refine ⟨fun u => (hFlags u).onGroup fun _ _ => rfl, by simp [ProducerPc.holdsLock], h.mark,
        by simp, fun _ _ u => ?_⟩
      exact (h.ended (by simp [hPc]) (by simp [hPc]) u).imp_left fun hDone =>
        hDone.onGroup fun _ _ => rfl
  | seekDone hPc hFree =>
      rename_i t
      rw [hPc] at hFlags
      have hEnded : ∀ u, DoneIs (s.onGroup t (·.notifySeekdone)).group u false ∨
          s.servedToEnd = true ∨ EndRead s.reads s.seekMark := fun u =>
        (h.ended (by simp [hPc]) (by simp [hPc]) u).imp_left fun hDone => hDone.onGroup fun _ _ => rfl
      have hKept : ∀ u, DoneIs (s.onGroup t (·.notifySeekdone)).group u s.isStreamDone := fun u =>
        (hFlags u).onGroup fun _ _ => rfl
      cases t <;>
        exact ⟨hKept, by simp [ProducerPc.holdsLock], h.mark, by simp, fun _ _ => hEnded⟩
  | seekFinish hPc =>
      have hAsleep := hCoherent.exclusive (by rw [hPc]; rfl)
      rw [hPc] at hFlags
      refine ⟨fun _ => hFlags, ?_, h.mark, by simp, fun _ _ t => ?_⟩
      · simp [hAsleep, SeekerPc.signal, SeekerPc.notified]
      · exact h.ended (by simp [hPc]) (by simp [hPc]) t
  | publishVideo hPc =>
      rw [hPc] at hFlags
      exact h.publish hAnnounced hPc hGuard ⟨hFlags.1, fun _ => doneIs_onGroup_self fun _ => rfl⟩
  | publishAudio hPc =>
      rw [hPc] at hFlags
      exact h.publish hAnnounced hPc hGuard fun hIdle => Track.forall.mpr
        ⟨(hFlags.2 hIdle).onGroup (by simp), doneIs_onGroup_self fun _ => rfl⟩
  | publishFlag hPc =>
      rw [hPc] at hFlags
      exact ⟨hFlags, fun _ => h.announced (by simp [hPc, ProducerPc.holdsLock]), h.mark, by simp,
        fun _ _ => h.ended (by simp [hPc]) (by simp [hPc])⟩

theorem EndRead.append {reads : List ReadResult} {mark : Nat} (h : EndRead reads mark)
    (result : ReadResult) : EndRead (reads ++ [result]) mark := by
  obtain ⟨k, found, hMark, hFound, hEnds⟩ := h
  exact ⟨k, found, hMark, List.getElem?_append_left (List.getElem?_eq_some_iff.mp hFound).1 ▸ hFound,
    hEnds⟩

/-- Without samples of other streams, only an end is published. -/
theorem handleRead_publish {result : ReadResult} {fuel : Nat} {t : Track}
    (hGuard : FlagsGuard cfg s (.readSample result fuel))
    (h : handleRead cfg s fuel result = some (.publish t)) : result.ends = true := by
  cases result with
  | wouldBlock => simp [handleRead] at h
  | streamEnd | error => rfl
  | sample sample =>
      have hNever : ∀ u p, enterPush s u p ≠ .publish t := by
        intro u p hPublish
        rcases enterPush_cases s u p with hLoop | ⟨hPush, _⟩
        · simp [hLoop] at hPublish
        · simp [hPush] at hPublish
      simp only [handleRead] at h
      by_cases hVideo : sample.streamIndex = cfg.mVideoTrackID
      · rw [if_pos hVideo] at h
        obtain ⟨converted, _, hHandled⟩ := Option.map_eq_some_iff.mp h
        cases converted with
        | written dst => exact absurd hHandled (hNever _ _)
        | error => cases hNone : s.group .video <;> simp [handleVideo, hNone] at hHandled
        | checkFailed | fault => simp [handleVideo] at hHandled
      · rw [if_neg hVideo, if_pos (hGuard.resolve_left hVideo)] at h
        exact absurd (Option.some.inj h) (hNever _ _)

theorem flagsInv_readSample {result : ReadResult} {fuel : Nat} (h : FlagsInv cfg s)
    (hGuard : FlagsGuard cfg s (.readSample result fuel))
    (hStep : readSampleStep cfg s result fuel = some s') : FlagsInv cfg s' := by
  obtain ⟨hPc, pc, hPc', rfl⟩ := readSampleStep_cases hStep
  have hFlags := h.flags
  rw [hPc] at hFlags
  have hCases := handleRead_cases hPc'
  refine ⟨?_, fun _ => h.announced (by simp [hPc, ProducerPc.holdsLock]), ?_, ?_, fun _ _ t => ?_⟩
  · rcases hCases with rfl | rfl | rfl | ⟨rfl, _⟩ | ⟨t, p, rfl, _⟩
    · exact fun hIdle => hFlags.1 ▸ hFlags.2 hIdle
    · trivial
    all_goals exact hFlags
  · have hMark := h.mark
    simp only [List.length_append, List.length_singleton]
    omega
  · intro hPublish
    have hVideo : pc = .publish .video := by
      rcases hCases with rfl | rfl | rfl | ⟨rfl, _⟩ | ⟨t, p, rfl, _⟩ <;> simp_all
    exact ⟨s.reads.length, result, h.mark, by simp, handleRead_publish hGuard (hVideo ▸ hPc')⟩
  · exact (h.ended (by simp [hPc]) (by simp [hPc]) t).imp_right (Or.imp_right (·.append result))

/-- While a seek is pending, nothing is known of the groups outside the seek
branch. -/
theorem FlagsAt.pending {seeking seeking' done : Bool} {toEnd toEnd' : Prop}
    {group group' : Track → Option PPMediaBufferGroup} {pc : ProducerPc}
    (h : FlagsAt seeking done toEnd group pc) (hHolds : pc.holdsLock = false)
    (hSeeking : seeking' = true) : FlagsAt seeking' done toEnd' group' pc := by
  subst hSeeking
  unfold FlagsAt at h ⊢
  split at h <;> grind [ProducerPc.holdsLock]

theorem FlagsAt.signal {seeking done : Bool} {toEnd : Prop}
    {group : Track → Option PPMediaBufferGroup} {pc : ProducerPc}
    (h : FlagsAt seeking done toEnd group pc) (t : Track) :
    FlagsAt seeking done toEnd group (pc.signal t) := by
  rcases signal_cases pc t with hSame | ⟨t', p, signalled, rfl, hMoved⟩
  · rwa [hSame]
  · rwa [hMoved]

/-- A signal does not change what the producer is about to do. -/
theorem signal_pcs (producer : ProducerPc) (t : Track) :
    (∀ u, producer.signal t = .publish u ↔ producer = .publish u) ∧
    (producer.signal t = .publishFlag ↔ producer = .publishFlag) ∧
    (∀ u, producer.signal t = .seekEnd u ↔ producer = .seekEnd u) ∧
    (producer.signal t = .seekEndFlag ↔ producer = .seekEndFlag) := by
  rcases signal_cases producer t with hSame | ⟨t', p, signalled, rfl, hMoved⟩
  · simp [hSame]
  · simp [hMoved]

/-- Telling a group of a seek. -/
theorem FlagsInv.notify (hCoherent : Coherent s) (h : FlagsInv cfg s) {t : Track} {next : SeekerPc}
    (hSeeker : s.seeker = .notify t)
    (hNext : ∀ u, next.notified u = true → u = t ∨ s.seeker.notified u = true) :
    FlagsInv cfg { s.onGroup t (·.notifySeekstart) with
      producer := s.producer.signal t, seeker := next } := by
  have hHolds : s.producer.holdsLock = false := by
    by_contra hHolds
    simpa [hSeeker] using hCoherent.exclusive (by simpa using hHolds)
  have hSeeking : s.isSeeking = true := by rw [hCoherent.pending, hSeeker]; rfl
  obtain ⟨hPublish, hPublishFlag, hSeekEnd, hSeekEndFlag⟩ := signal_pcs s.producer t
  have hDone : ∀ u, DoneIs s.group u false →
      DoneIs (s.onGroup t (·.notifySeekstart)).group u false := by
    intro u hDone
    by_cases hHere : u = t
    · subst hHere
      exact doneIs_onGroup_self fun _ => rfl
    · exact hDone.onGroup fun hSame => absurd hSame hHere
  refine ⟨?_, fun _ u hNotified => ?_, h.mark, ?_, fun hEnd hFlag u => ?_⟩
  · exact (h.flags.pending hHolds hSeeking).signal t
  · by_cases hHere : u = t
    · subst hHere
      exact Or.inr (doneIs_onGroup_self fun _ => rfl)
    · exact (h.announced hHolds u ((hNext u hNotified).resolve_left hHere)).imp_right (hDone u)
  · simpa [hPublish, hPublishFlag, State.onGroup] using h.publishing
  · exact (h.ended (by simpa [hSeekEnd] using hEnd) (by simpa [hSeekEndFlag] using hFlag) u).imp_left
      (hDone u)

theorem flagsInv_seeker (hCoherent : Coherent s) (h : FlagsInv cfg s)
    (hStep : seekerStep s = some s') : FlagsInv cfg s' := by
  cases seeks_of_step hStep with
  | enter hSeeker hFree =>
      exact ⟨h.flags.pending hFree rfl, by simp [SeekerPc.notified], h.mark,
        h.publishing, h.ended⟩
  | notify hSeeker hFree =>
      rename_i t
      refine h.notify hCoherent hSeeker ?_
      cases t <;> simp [hSeeker, SeekerPc.notified, Track.forall]
  | wait hSeeker =>
      refine ⟨h.flags, fun hHolds t _ => ?_, h.mark, h.publishing, h.ended⟩
      exact h.announced hHolds t (by simp [hSeeker, SeekerPc.notified])
  | wake hSeeker hFree =>
      exact ⟨h.flags, by simp [SeekerPc.notified], h.mark, h.publishing, h.ended⟩

/-- The groups after a start are new. -/
theorem startedGroups {g : PPMediaBufferGroup} {t : Track} (hNone : ∀ t, s.group t = none)
    (hGroup : (if cfg.present t then some (newGroup t) else s.group t) = some g) :
    g = newGroup t := by
  rw [hNone] at hGroup
  split_ifs at hGroup
  exact (Option.some.inj hGroup).symm

theorem newGroup_flags (t : Track) : (newGroup t).flags = (false, false) := by
  cases t <;> rfl

theorem flagsInv_start (hCoherent : Coherent s) (h : FlagsInv cfg s)
    (hGuard : FlagsGuard cfg s .start) (hStep : startStep cfg s = some s') : FlagsInv cfg s' := by
  rcases startStep_cases hStep with rfl | ⟨hStopped, hIdle, _, rfl⟩
  · exact h
  · obtain ⟨hProducer, hNone⟩ := hCoherent.stopped hStopped hIdle
    have hDone : ∀ t, DoneIs
        (fun t => if cfg.present t then some (newGroup t) else s.group t) t false := by
      intro t g hGroup
      rw [startedGroups hNone hGroup]
      exact congrArg Prod.fst (newGroup_flags t)
    refine ⟨fun hSeeking => ?_, fun _ t _ => Or.inr (hDone t), h.mark, by simp,
      fun _ _ t => Or.inl (hDone t)⟩
    have hNotDone : s.isStreamDone = false := by
      by_contra hSet
      simp [hGuard hStopped (by simpa using hSet)] at hSeeking
    simpa only [hNotDone] using hDone

theorem DoneIs.delete {t u : Track} {done : Bool} (h : DoneIs s.group u done) :
    DoneIs (Function.update s.group t none) u done := by
  intro g hGroup
  rw [Function.update_apply] at hGroup
  split_ifs at hGroup
  exact h g hGroup

theorem FlagsInv.signalled (h : FlagsInv cfg s) {t : Track} (hSame : SameRequests s s')
    (hSignal : s'.producer = s.producer.signal t) : FlagsInv cfg s' := by
  refine h.same hSame ?_
  rw [hSignal]
  rcases signal_push s.producer t with hSame | ⟨t', p, pc, hPush, pc', hMoved, _⟩
  · exact Or.inl hSame
  · exact Or.inr ⟨t', p, pc, hPush, Or.inr ⟨pc', hMoved⟩⟩

theorem flagsInv_control (hCoherent : Coherent s) (h : FlagsInv cfg s)
    (hStep : controlStep s = some s') : FlagsInv cfg s' := by
  cases controls_of_step hStep with
  | notifyStop hControl =>
      rename_i t
      refine @FlagsInv.signalled _ s _ h t ⟨rfl, rfl, rfl, rfl, rfl, rfl, rfl, rfl, rfl, fun u => ?_⟩ rfl
      exact s.onGroup_flags t u fun _ => rfl
  | join hControl hExited =>
      exact ⟨h.flags, h.announced, h.mark, h.publishing, h.ended⟩
  | delete hControl hFree =>
      rename_i t
      have hExited := hCoherent.deleting t hControl
      refine ⟨?_, fun _ u hNotified => ?_, h.mark, ?_, fun _ _ u => ?_⟩
      · simp only [hExited]
        trivial
      · exact (h.announced (by simp [hExited, ProducerPc.holdsLock]) u hNotified).imp_right
          (·.delete)
      · simp [hExited]
      · exact (h.ended (by simp [hExited]) (by simp [hExited]) u).imp_left (·.delete)

theorem flagsInv_seekTo {seekTimeUs : Int} (hCoherent : Coherent s) (h : FlagsInv cfg s)
    (hIdle : s.seeker = .idle) :
    FlagsInv cfg { s with mSeekTimeUs := seekTimeUs, seeker := .enter } := by
  have hHolds : s.producer.holdsLock = false := by
    by_contra hHolds
    simpa [hIdle] using hCoherent.exclusive (by simpa using hHolds)
  have hFlags := h.flags
  refine ⟨?_, by simp [SeekerPc.notified], h.mark, h.publishing, h.ended⟩
  unfold FlagsAt at hFlags ⊢
  dsimp only
  split at hFlags <;> grind [ProducerPc.holdsLock]

theorem flagsInv_step {act : Act} (hCoherent : Coherent s) (hAnnounced : Announced s)
    (h : FlagsInv cfg s)
    (hGuard : FlagsGuard cfg s act) (hStep : step cfg s act = some s') : FlagsInv cfg s' := by
  unfold step at hStep
  split_ifs at hStep
  cases act with
  | producer => exact flagsInv_producer hCoherent hAnnounced h hGuard hStep
  | readSample result fuel => exact flagsInv_readSample h hGuard hStep
  | seekTo seekTimeUs =>
      obtain ⟨hSeeker, rfl⟩ := seekTo_cases hStep
      exact flagsInv_seekTo hCoherent h hSeeker
  | seeker => exact flagsInv_seeker hCoherent h hStep
  | start => exact flagsInv_start hCoherent h hGuard hStep
  | stop =>
      rcases stopStep_cases hStep with rfl | ⟨_, _, rfl⟩
      · exact h
      · exact ⟨h.flags, h.announced, h.mark, h.publishing, h.ended⟩
  | control => exact flagsInv_control hCoherent h hStep
  | spuriousWake | read | reader | release | releaseOrphan =>
      obtain ⟨hQuiet, hSame | ⟨t, hSignal⟩ | ⟨t, p, signalled, hBefore, hAfter⟩⟩ :=
        quiet_of_consumer (by simp) hStep
      · exact h.same hQuiet.toSameRequests (Or.inl hSame)
      · exact h.signalled hQuiet.toSameRequests hSignal
      · exact h.same hQuiet.toSameRequests (Or.inr ⟨t, p, _, hBefore, Or.inr ⟨_, hAfter⟩⟩)

theorem FlagsInv.flagsAgree (hCoherent : Coherent s) (h : FlagsInv cfg s) : FlagsAgree s where
  agree hPc hSeeking := by
    have hFlags := h.flags
    rw [hPc] at hFlags
    exact hFlags hSeeking
  since_seek hSeeking hServed t hDone := by
    have hHolds : s.producer.holdsLock = false := by
      by_contra hHolds
      have hAsleep := hCoherent.exclusive (by simpa using hHolds)
      simp [hCoherent.pending, hAsleep, SeekerPc.pending] at hSeeking
    have hEnded := h.ended (by rintro u hPc; simp [hPc, ProducerPc.holdsLock] at hHolds)
      (by rintro hPc; simp [hPc, ProducerPc.holdsLock] at hHolds) t
    exact (hEnded.resolve_left hDone).resolve_left (by simp [hServed])

/-- From the top of the loop the producer tests for a stop, a seek and the end
of the stream before it reads. -/
theorem readsNext_of_loopTest (hPc : s.producer = .loopTest) (hStarted : s.mStarted = true)
    (hSeeking : s.isSeeking = false) (hDone : s.isStreamDone = false) : ReadsNext cfg s := by
  simp [ReadsNext, exec, step, liveStep, producerStep, hPc, hStarted, hSeeking, hDone]

theorem readsNext_start (hStopped : s.mStarted = false) (hSeeking : s.isSeeking = false)
    (hGuard : FlagsGuard cfg s .start) (hStep : step cfg s .start = some s')
    (hStarted : s'.mStarted = true) : ReadsNext cfg s' := by
  unfold step at hStep
  split_ifs at hStep
  rcases startStep_cases hStep with rfl | ⟨_, _, _, rfl⟩
  · simp [hStopped] at hStarted
  · refine readsNext_of_loopTest rfl rfl hSeeking ?_
    by_contra hDone
    simp [hGuard hStopped (by simpa using hDone)] at hSeeking

end Steps

/-- In every guarded run the flags agree, and a start that takes effect lets
the producer read again. -/
theorem run_flagsAgree {cfg : Config} {acts : List Act} {s : State}
    (run : Run (step cfg) (FlagsGuard cfg) initial acts s) :
    FlagsAgree s ∧ ∀ s', s.mStarted = false → s.isSeeking = false → FlagsGuard cfg s .start →
      step cfg s .start = some s' → s'.mStarted = true → ReadsNext cfg s' := by
  have hInv : FlagsInv cfg s :=
    run.invariant_of (fun _ _ => run_announced) (flagsInv_initial cfg)
      fun _ _ _ hKnown h hGuard hStep => flagsInv_step hKnown.1 hKnown.2 h hGuard hStep
  exact ⟨hInv.flagsAgree (run_announced run).1, fun _ hStopped hSeeking hGuard hStep hStarted =>
    readsNext_start hStopped hSeeking hGuard hStep hStarted⟩

/-- Start and read the end of the stream; the end is not yet published. -/
def readEnd : List Act :=
  [Act.start, Act.producer, Act.producer, Act.producer, Act.readSample .streamEnd 0]

/-- The end is published and a seek to the begin is served. -/
def seekBack : List Act :=
  readEnd ++ List.replicate 3 Act.producer ++ [Act.seekTo 0] ++ List.replicate 4 Act.seeker ++
    List.replicate 11 Act.producer ++ [Act.readSample .wouldBlock 0]

theorem run_flagsAgree_seekBack : ∃ s,
    Run (step twoTracks) (FlagsGuard twoTracks) initial seekBack s ∧
    (s.producer = .loopTest ∧ s.isSeeking = false ∧ s.seekMark = 1) ∧ FlagsAgree s := by
  obtain ⟨s, run, hState⟩ := Run.exists_of_execGuarded
    (fun s => s.producer = .loopTest ∧ s.isSeeking = false ∧ s.seekMark = 1)
    (show (execGuarded (step twoTracks) (FlagsGuard twoTracks) initial seekBack).any _ = true by
      decide)
  exact ⟨s, run, hState, (run_flagsAgree run).1⟩

/-- The end is published and the extractor stopped and started. -/
def startAgain : List Act :=
  readEnd ++ List.replicate 3 Act.producer ++ [Act.stop, Act.control, Act.control, Act.producer, Act.producer] ++
    List.replicate 3 Act.control ++ [Act.start]

/-- A seek resets the groups before the end is published to them. -/
def seekAcross : List Act :=
  readEnd ++ [Act.seekTo 0] ++ List.replicate 4 Act.seeker ++ List.replicate 3 Act.producer ++
    List.replicate 11 Act.producer ++ [Act.readSample .wouldBlock 0]

/-- At the top of the loop, without a seek, a group and the extractor differ. -/
def Disagrees (s : State) : Prop :=
  s.producer = .loopTest ∧ s.isSeeking = false ∧
    ∃ g ∈ s.group .video, g.mIsStreamDone ≠ s.isStreamDone

instance (s : State) : Decidable (Disagrees s) := inferInstanceAs (Decidable (_ ∧ _ ∧ _))

theorem not_flagsAgree_of_disagrees {s : State} (h : Disagrees s) : ¬ FlagsAgree s := by
  obtain ⟨hPc, hSeeking, g, hGroup, hDiffers⟩ := h
  exact fun hAgree => hDiffers (hAgree.agree hPc hSeeking .video g hGroup)

instance (cfg : Config) (s : State) : Decidable (ReadsNext cfg s) :=
  inferInstanceAs (Decidable (_ = _))

theorem exists_run_not_flagsAgree :
    (∃ s, Run (step twoTracks) unguarded initial startAgain s ∧ ¬ FlagsAgree s ∧
      ¬ ReadsNext twoTracks s) ∧
    ∃ s, Run (step twoTracks) unguarded initial seekAcross s ∧ ¬ FlagsAgree s := by
  constructor
  · obtain ⟨s, run, hDisagrees, hStuck⟩ := Run.exists_of_exec
      (fun s => Disagrees s ∧ ¬ ReadsNext twoTracks s)
      (show (exec (step twoTracks) initial startAgain).any _ = true by decide)
    exact ⟨s, run, not_flagsAgree_of_disagrees hDisagrees, hStuck⟩
  · obtain ⟨s, run, hDisagrees⟩ := Run.exists_of_exec Disagrees
      (show (exec (step twoTracks) initial seekAcross).any _ = true by decide)
    exact ⟨s, run, not_flagsAgree_of_disagrees hDisagrees⟩

end Meet.PPExtractor
