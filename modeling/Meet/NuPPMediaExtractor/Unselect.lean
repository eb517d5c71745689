import Meet.NuPPMediaExtractor.Threads
import Meet.PPExtractor.Fresh

/-! What `unselectTrack` of one track does to another. Both sources share one
extractor, and the `stop` of either ends the producer and deletes both groups. So
the other track is spared only when it has nothing more to give. -/
namespace Meet.PPExtractor

/-- Once the stream is done, nothing is read. -/
def Ended (s : State) : Prop := s.isStreamDone = true → s.producer.hasRead = false

section Ended

variable {cfg : Config} {s s' : State}

theorem Ended.same (h : Ended s) (hDone : s'.isStreamDone = s.isStreamDone)
    (hPc : s'.producer.hasRead = s.producer.hasRead) : Ended s' := by
  intro hEnd
  rw [hPc]
  exact h (hDone ▸ hEnd)

end Ended

/-- A track from which nothing more will come: the stream is done, no seek is
asked for and no frame waits. -/
structure Exhausted (s : State) (t : Track) : Prop where
  done : s.isStreamDone = true
  calm : s.seeker = .idle
  empty : ∀ g, s.group t = some g → g.frames = []

section Exhausted

variable {cfg : Config} {s s' : State} {t : Track}

/-- Only the store of the producer adds a frame. -/
theorem keepsFrames_step {act : Act} (hCoherent : Coherent s) (hIdle : s.seeker = .idle)
    (hRead : s.producer.hasRead = false) (hStep : step cfg s act = some s') :
    KeepsFrames s.group s'.group ∧ (s.isStreamDone = true → s'.isStreamDone = true) := by
  have hHolds : s.producer.holdsLock = false := by
    by_contra hHolds
    simpa [hIdle] using hCoherent.exclusive (by simpa using hHolds)
  unfold step at hStep
  split_ifs at hStep
  cases act with
  | producer =>
      cases produces_of_step hStep with
      | push hPc hGroup hPush | pushError hPc hGroup hPush =>
          simp [hPc, ProducerPc.hasRead] at hRead
      | publishVideo hPc | publishAudio hPc | publishFlag hPc =>
          simp [hPc, ProducerPc.hasRead] at hRead
      | seekBranch hPc | seekEndVideo hPc | seekEndAudio hPc | seekEndFlag hPc | seekBox hPc
      | seekFinish hPc => simp [hPc, ProducerPc.holdsLock] at hHolds
      | seekClear hPc hFree | seekDone hPc hFree => simp [hPc, ProducerPc.holdsLock] at hHolds
      | seekLock hPc hFree => exact ⟨KeepsFrames.refl _, id⟩
      | loopTest hPc | seekTest hPc | doneTest hPc | exiting hPc => exact ⟨KeepsFrames.refl _, id⟩
  | readSample result fuel =>
      have hPc := (readSampleStep_cases hStep).1
      simp [hPc, ProducerPc.hasRead] at hRead
  | seekTo seekTimeUs =>
      simp only [liveStep, hIdle] at hStep
      obtain rfl := Option.some.inj hStep
      exact ⟨KeepsFrames.refl _, id⟩
  | seeker => simp [liveStep, seekerStep, hIdle] at hStep
  | start =>
      refine ⟨startStep_frames hStep, ?_⟩
      rcases startStep_cases hStep with rfl | ⟨_, _, _, rfl⟩ <;> exact id
  | stop =>
      rcases stopStep_cases hStep with rfl | ⟨_, _, rfl⟩ <;> exact ⟨KeepsFrames.refl _, id⟩
  | control =>
      refine ⟨controlStep_frames hStep, ?_⟩
      cases controls_of_step hStep <;> exact id
  | spuriousWake | read | reader | release | releaseOrphan =>
      refine ⟨frames_of_consumer (by simp) hStep, ?_⟩
      exact fun hDone => (quiet_of_consumer (by simp) hStep).1.isStreamDone.trans hDone

/-- An exhausted track stays so until the next seek. -/
theorem Exhausted.step {act : Act} (hCoherent : Coherent s) (hEnded : Ended s)
    (h : Exhausted s t) (hAct : act.isSeekTo = false) (hStep : step cfg s act = some s') :
    Exhausted s' t := by
  obtain ⟨hFrames, hDone⟩ := keepsFrames_step hCoherent h.calm (hEnded h.done) hStep
  refine ⟨hDone h.done, (idle_step hCoherent h.calm hAct hStep).1, fun g hGroup => ?_⟩
  refine List.eq_nil_iff_forall_not_mem.mpr fun b hMem => ?_
  obtain ⟨old, hOld, hMem⟩ := hFrames t g hGroup b hMem
  simp [h.empty old hOld] at hMem

end Exhausted

end Meet.PPExtractor

namespace Meet.NuPPMediaExtractor

open PPExtractor (Config Track Exhausted)

/-- A track has ended for the caller. -/
def Driven.ended (n : Driven) (t : Track) : Prop :=
  ∃ info ∈ n.mSelectedTracks, info.mSource = t ∧ info.mFinalResult ≠ .ok

/-- The driving thread takes no part in a seek. -/
def DriverPc.accesses : DriverPc → Bool
  | .fetch (.seekTo _) _ _ | .read (.seekTo _) _ _ | .seek => false
  | _ => true

/-- Nothing more is delivered on track `t`. -/
structure Closed (t : Track) (delivered : List Payload) (n : Driven) : Prop where
  delivered : n.mImpl.delivered t = delivered
  accesses : n.driver.accesses = true
  entries : ∀ info ∈ n.mSelectedTracks, info.mSource = t → info.mSample = none ∧
    (info.mFinalResult ≠ .ok ∨ Exhausted n.mImpl t)
  reading : ∀ request i min info, n.driver = .read request i min →
    n.mSelectedTracks[i]? = some info → info.mSource = t → Exhausted n.mImpl t

section Steps

variable {cfg : Config} {n n' : Driven} {t : Track} {delivered : List Payload}

/-- The extractor moves on without a seek and without a read of `t`. -/
structure Apart (t : Track) (x x' : PPExtractor.State) : Prop where
  delivered : x'.delivered t = x.delivered t
  exhausted : Exhausted x t → Exhausted x' t

theorem Apart.refl (x : PPExtractor.State) : Apart t x x := ⟨rfl, id⟩

/-- Steps that leave the driving thread outside of a read. -/
theorem Closed.apart (h : Closed t delivered n) (hApart : Apart t n.mImpl n'.mImpl)
    (hAccesses : n'.driver.accesses = true)
    (hRead : ∀ request i min, n'.driver = .read request i min →
      n.driver = n'.driver ∧ n'.mSelectedTracks = n.mSelectedTracks)
    (hEntries : ∀ info ∈ n'.mSelectedTracks, info.mSource = t → info ∈ n.mSelectedTracks ∨
      (info.mSample = none ∧ (info.mFinalResult ≠ .ok ∨ Exhausted n.mImpl t))) :
    Closed t delivered n' := by
  refine ⟨hApart.delivered.trans h.delivered, hAccesses, fun info hMem hHere => ?_, ?_⟩
  · have hOld : info.mSample = none ∧ (info.mFinalResult ≠ .ok ∨ Exhausted n.mImpl t) :=
      (hEntries info hMem hHere).elim (fun hOld => h.entries info hOld hHere) id
    exact ⟨hOld.1, hOld.2.imp id hApart.exhausted⟩
  · intro request i min info hDriver hInfo hHere
    obtain ⟨hSame, hTracks⟩ := hRead request i min hDriver
    exact hApart.exhausted (h.reading request i min info (hSame.trans hDriver) (hTracks ▸ hInfo) hHere)

end Steps

section Runs

variable {cfg : Config} {n : Driven} {acts : List Act}

end Runs

end Meet.NuPPMediaExtractor
