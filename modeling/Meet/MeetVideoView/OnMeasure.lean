import Mathlib.Tactic.SplitIfs

/-! `onMeasure` of `MeetVideoView.java`, which scales a video to the box of its view. The case
`SCREEN_FIT` has no `break`, so what it computes goes through the case `SCREEN_FILL`. -/
namespace Meet.MeetVideoView

/-- A width and a height, which Java keeps in 32 bits. -/
structure Size where
  width : Int32
  height : Int32
deriving DecidableEq

structure View where
  mVideoWidth : Int32
  mVideoHeight : Int32
  mDisplayMode : Int32

def screenFit : Int32 := 0

def screenFill : Int32 := 2

def screenCenter : Int32 := 3

section

variable (view : View)

/-- The case `SCREEN_FIT`. -/
def measureFit (size : Size) : Size :=
  if view.mVideoWidth * size.height > size.width * view.mVideoHeight then
    { size with height := size.width * view.mVideoHeight / view.mVideoWidth }
  else if view.mVideoWidth * size.height < size.width * view.mVideoHeight then
    { size with width := size.height * view.mVideoWidth / view.mVideoHeight }
  else size

/-- The case `SCREEN_FILL`. -/
def measureFill (size : Size) : Size :=
  if view.mVideoWidth * size.height > size.width * view.mVideoHeight then
    { size with width := size.height * view.mVideoWidth / view.mVideoHeight }
  else if view.mVideoWidth * size.height < size.width * view.mVideoHeight then
    { size with height := size.width * view.mVideoHeight / view.mVideoWidth }
  else size

/-- The size that `getDefaultSize` gives to the view. -/
def box (getDefaultSize : Int32 → Int32 → Int32) (widthMeasureSpec heightMeasureSpec : Int32) :
    Size :=
  ⟨getDefaultSize view.mVideoWidth widthMeasureSpec,
    getDefaultSize view.mVideoHeight heightMeasureSpec⟩

/-- The size given to `setMeasuredDimension`. `SCREEN_STRETCH` leaves the box as it is. -/
def onMeasure (getDefaultSize : Int32 → Int32 → Int32)
    (widthMeasureSpec heightMeasureSpec : Int32) : Size :=
  let size := box view getDefaultSize widthMeasureSpec heightMeasureSpec
  if view.mVideoWidth > 0 ∧ view.mVideoHeight > 0 then
    if view.mDisplayMode = screenCenter then ⟨view.mVideoWidth, view.mVideoHeight⟩
    else if view.mDisplayMode = screenFit then measureFill view (measureFit view size)
    else if view.mDisplayMode = screenFill then measureFill view size
    else size
  else size

/-- One side is that of the box, the other keeps the shape of the video, rounded down. -/
def Shaped (box measured : Size) : Prop :=
  measured.width = box.width ∧ measured.height.toInt =
      box.width.toInt * view.mVideoHeight.toInt / view.mVideoWidth.toInt ∨
    measured.height = box.height ∧ measured.width.toInt =
      box.height.toInt * view.mVideoWidth.toInt / view.mVideoHeight.toInt

/-- The video is inside the box. -/
structure Fits (box measured : Size) : Prop where
  width : measured.width ≤ box.width
  height : measured.height ≤ box.height
  shaped : Shaped view box measured

/-- The box is inside the video. -/
structure Fills (box measured : Size) : Prop where
  width : box.width ≤ measured.width
  height : box.height ≤ measured.height
  shaped : Shaped view box measured

/-- A size whose products with the size of the video are 32-bit integers. -/
structure InRange (size : Size) : Prop where
  videoWidth : 0 < view.mVideoWidth.toInt
  videoHeight : 0 < view.mVideoHeight.toInt
  width : 0 ≤ size.width.toInt
  height : 0 ≤ size.height.toInt
  high : view.mVideoWidth.toInt * size.height.toInt ≤ Int32.maxValue.toInt
  wide : size.width.toInt * view.mVideoHeight.toInt ≤ Int32.maxValue.toInt

end

/-! ### Arithmetic without overflow -/

section

variable {a b c : Int32}

theorem toInt_mul_of_le (ha : 0 ≤ a.toInt) (hb : 0 ≤ b.toInt)
    (hProduct : a.toInt * b.toInt ≤ Int32.maxValue.toInt) : (a * b).toInt = a.toInt * b.toInt := by
  have hNonneg := Int.mul_nonneg ha hb
  rw [Int32.toInt_maxValue] at hProduct
  rw [Int32.toInt_mul]
  apply Int.bmod_eq_of_le <;> omega

theorem toInt_scaled (ha : 0 ≤ a.toInt) (hb : 0 ≤ b.toInt) (hc : 0 < c.toInt)
    (hProduct : a.toInt * b.toInt ≤ Int32.maxValue.toInt) :
    (a * b / c).toInt = a.toInt * b.toInt / c.toInt := by
  have hNot : c ≠ -1 := by
    rintro rfl
    exact absurd hc (by decide)
  rw [Int32.toInt_div_of_ne_right _ _ hNot, toInt_mul_of_le ha hb hProduct,
    Int.tdiv_eq_ediv_of_nonneg (Int.mul_nonneg ha hb)]

end

/-! ### The two cases -/

section

variable {view : View} {size : Size}

theorem InRange.products (h : InRange view size) :
    (view.mVideoWidth * size.height).toInt = view.mVideoWidth.toInt * size.height.toInt ∧
      (size.width * view.mVideoHeight).toInt = size.width.toInt * view.mVideoHeight.toInt :=
  ⟨toInt_mul_of_le (Int.le_of_lt h.videoWidth) h.height h.high,
    toInt_mul_of_le h.width (Int.le_of_lt h.videoHeight) h.wide⟩

/-- The height that goes with the width. -/
theorem InRange.scaledHeight (h : InRange view size) :
    (size.width * view.mVideoHeight / view.mVideoWidth).toInt =
      size.width.toInt * view.mVideoHeight.toInt / view.mVideoWidth.toInt :=
  toInt_scaled h.width (Int.le_of_lt h.videoHeight) h.videoWidth h.wide

/-- The width that goes with the height. -/
theorem InRange.scaledWidth (h : InRange view size) :
    (size.height * view.mVideoWidth / view.mVideoHeight).toInt =
      size.height.toInt * view.mVideoWidth.toInt / view.mVideoHeight.toInt := by
  refine toInt_scaled h.height (Int.le_of_lt h.videoWidth) h.videoHeight ?_
  rw [Int.mul_comm]
  exact h.high

/-- Where the video is wider than the box, the box keeps its width to fit and its height to
fill. -/
theorem InRange.cases (h : InRange view size) :
    (size.width.toInt * view.mVideoHeight.toInt < view.mVideoWidth.toInt * size.height.toInt ∧
      measureFit view size =
        ⟨size.width, size.width * view.mVideoHeight / view.mVideoWidth⟩ ∧
      measureFill view size =
        ⟨size.height * view.mVideoWidth / view.mVideoHeight, size.height⟩) ∨
    (view.mVideoWidth.toInt * size.height.toInt < size.width.toInt * view.mVideoHeight.toInt ∧
      measureFit view size =
        ⟨size.height * view.mVideoWidth / view.mVideoHeight, size.height⟩ ∧
      measureFill view size =
        ⟨size.width, size.width * view.mVideoHeight / view.mVideoWidth⟩) ∨
    view.mVideoWidth.toInt * size.height.toInt = size.width.toInt * view.mVideoHeight.toInt ∧
      measureFit view size = size ∧ measureFill view size = size := by
  obtain ⟨hHigh, hWide⟩ := h.products
  simp only [measureFit, measureFill, gt_iff_lt, Int32.lt_iff_toInt_lt, hHigh, hWide]
  rcases Int.lt_trichotomy (size.width.toInt * view.mVideoHeight.toInt)
      (view.mVideoWidth.toInt * size.height.toInt) with hWider | hSame | hHigher
  · left
    simp [hWider]
  · right; right
    simp [hSame]
  · right; left
    simp [hHigher, Int.lt_asymm hHigher]

theorem InRange.floorHeight (h : InRange view size) :
    view.mVideoWidth.toInt * (size.width * view.mVideoHeight / view.mVideoWidth).toInt ≤
      size.width.toInt * view.mVideoHeight.toInt := by
  rw [h.scaledHeight]
  exact Int.mul_ediv_self_le (Int.ne_of_gt h.videoWidth)

theorem InRange.floorWidth (h : InRange view size) :
    (size.height * view.mVideoWidth / view.mVideoHeight).toInt * view.mVideoHeight.toInt ≤
      view.mVideoWidth.toInt * size.height.toInt := by
  rw [h.scaledWidth, Int.mul_comm view.mVideoWidth.toInt]
  exact Int.ediv_mul_le _ (Int.ne_of_gt h.videoHeight)

/-- To fit keeps the products in range. -/
theorem InRange.afterFit (h : InRange view size) : InRange view (measureFit view size) := by
  rcases h.cases with ⟨-, hFit, -⟩ | ⟨-, hFit, -⟩ | ⟨-, hFit, -⟩
  · rw [hFit]
    refine ⟨h.videoWidth, h.videoHeight, h.width, ?_, Int.le_trans h.floorHeight h.wide, h.wide⟩
    change 0 ≤ (size.width * view.mVideoHeight / view.mVideoWidth).toInt
    rw [h.scaledHeight]
    exact Int.ediv_nonneg (Int.mul_nonneg h.width (Int.le_of_lt h.videoHeight))
      (Int.le_of_lt h.videoWidth)
  · rw [hFit]
    refine ⟨h.videoWidth, h.videoHeight, ?_, h.height, h.high, Int.le_trans h.floorWidth h.high⟩
    change 0 ≤ (size.height * view.mVideoWidth / view.mVideoHeight).toInt
    rw [h.scaledWidth]
    exact Int.ediv_nonneg (Int.mul_nonneg h.height (Int.le_of_lt h.videoWidth))
      (Int.le_of_lt h.videoHeight)
  · rwa [hFit]

/-- What the case `SCREEN_FIT` computes goes through the case `SCREEN_FILL` as it is: the side
that was rounded down is too short for the other, and is computed again. -/
theorem InRange.measureFill_fit (h : InRange view size) :
    measureFill view (measureFit view size) = measureFit view size := by
  have hRange := h.afterFit
  rcases h.cases with ⟨-, hFit, -⟩ | ⟨-, hFit, -⟩ | ⟨-, hFit, hFill⟩
  · rw [hFit] at hRange ⊢
    rcases hRange.cases with ⟨hWider, -⟩ | ⟨-, -, hAgain⟩ | ⟨-, -, hAgain⟩
    · exact absurd h.floorHeight (Int.not_le.mpr hWider)
    · exact hAgain
    · exact hAgain
  · rw [hFit] at hRange ⊢
    rcases hRange.cases with ⟨-, -, hAgain⟩ | ⟨hHigher, -⟩ | ⟨-, -, hAgain⟩
    · exact hAgain
    · exact absurd h.floorWidth (Int.not_le.mpr hHigher)
    · exact hAgain
  · rw [hFit, hFill]

/-- A box with the shape of the video is kept. -/
theorem InRange.shaped_self (h : InRange view size)
    (hSame : view.mVideoWidth.toInt * size.height.toInt =
      size.width.toInt * view.mVideoHeight.toInt) : Shaped view size size := by
  refine Or.inl ⟨rfl, ?_⟩
  rw [← hSame, Int.mul_ediv_cancel_left _ (Int.ne_of_gt h.videoWidth)]

theorem InRange.fits (h : InRange view size) : Fits view size (measureFit view size) := by
  rcases h.cases with ⟨hWider, hFit, -⟩ | ⟨hHigher, hFit, -⟩ | ⟨hSame, hFit, -⟩
  · rw [hFit]
    refine ⟨Int32.le_refl _, ?_, Or.inl ⟨rfl, h.scaledHeight⟩⟩
    rw [Int32.le_iff_toInt_le, h.scaledHeight]
    apply Int.ediv_le_of_le_mul h.videoWidth
    rw [Int.mul_comm size.height.toInt]
    exact Int.le_of_lt hWider
  · rw [hFit]
    refine ⟨?_, Int32.le_refl _, Or.inr ⟨rfl, h.scaledWidth⟩⟩
    rw [Int32.le_iff_toInt_le, h.scaledWidth]
    apply Int.ediv_le_of_le_mul h.videoHeight
    rw [Int.mul_comm size.height.toInt]
    exact Int.le_of_lt hHigher
  · rw [hFit]
    exact ⟨Int32.le_refl _, Int32.le_refl _, h.shaped_self hSame⟩

theorem InRange.fills (h : InRange view size) : Fills view size (measureFill view size) := by
  rcases h.cases with ⟨hWider, -, hFill⟩ | ⟨hHigher, -, hFill⟩ | ⟨hSame, -, hFill⟩
  · rw [hFill]
    refine ⟨?_, Int32.le_refl _, Or.inr ⟨rfl, h.scaledWidth⟩⟩
    rw [Int32.le_iff_toInt_le, h.scaledWidth, Int.le_ediv_iff_mul_le h.videoHeight,
      Int.mul_comm size.height.toInt]
    exact Int.le_of_lt hWider
  · rw [hFill]
    refine ⟨Int32.le_refl _, ?_, Or.inl ⟨rfl, h.scaledHeight⟩⟩
    rw [Int32.le_iff_toInt_le, h.scaledHeight, Int.le_ediv_iff_mul_le h.videoWidth,
      Int.mul_comm size.height.toInt]
    exact Int.le_of_lt hHigher
  · rw [hFill]
    exact ⟨Int32.le_refl _, Int32.le_refl _, h.shaped_self hSame⟩

end

/-- To fit, the video is inside the box, and what the next case does with it changes nothing; to
fill, the box is inside the video. One side is that of the box and the other keeps the shape of
the video. -/
theorem onMeasure_scales (getDefaultSize : Int32 → Int32 → Int32) (view : View)
    (widthMeasureSpec heightMeasureSpec : Int32)
    (hVideo : 0 < view.mVideoWidth ∧ 0 < view.mVideoHeight)
    (hBox : 0 < (box view getDefaultSize widthMeasureSpec heightMeasureSpec).width ∧
      0 < (box view getDefaultSize widthMeasureSpec heightMeasureSpec).height)
    (hHigh : view.mVideoWidth.toInt *
      (box view getDefaultSize widthMeasureSpec heightMeasureSpec).height.toInt ≤
        Int32.maxValue.toInt)
    (hWide : (box view getDefaultSize widthMeasureSpec heightMeasureSpec).width.toInt *
      view.mVideoHeight.toInt ≤ Int32.maxValue.toInt) :
    (view.mDisplayMode = screenFit →
      Fits view (box view getDefaultSize widthMeasureSpec heightMeasureSpec)
        (onMeasure view getDefaultSize widthMeasureSpec heightMeasureSpec) ∧
      onMeasure view getDefaultSize widthMeasureSpec heightMeasureSpec =
        measureFit view (box view getDefaultSize widthMeasureSpec heightMeasureSpec)) ∧
    (view.mDisplayMode = screenFill →
      Fills view (box view getDefaultSize widthMeasureSpec heightMeasureSpec)
        (onMeasure view getDefaultSize widthMeasureSpec heightMeasureSpec)) := by
  have hRange : InRange view (box view getDefaultSize widthMeasureSpec heightMeasureSpec) := by
    simp only [Int32.lt_iff_toInt_lt, Int32.toInt_zero] at hVideo hBox
    exact ⟨hVideo.1, hVideo.2, Int.le_of_lt hBox.1, Int.le_of_lt hBox.2, hHigh, hWide⟩
  constructor
  · intro hMode
    have hMeasured : onMeasure view getDefaultSize widthMeasureSpec heightMeasureSpec =
        measureFit view (box view getDefaultSize widthMeasureSpec heightMeasureSpec) := by
      rw [← hRange.measureFill_fit, onMeasure, if_pos hVideo, hMode, if_neg (by decide),
        if_pos rfl]
    rw [hMeasured]
    exact ⟨hRange.fits, rfl⟩
  · intro hMode
    rw [onMeasure, if_pos hVideo, hMode, if_neg (by decide), if_neg (by decide), if_pos rfl]
    exact hRange.fills

/-- `View.getDefaultSize`: the size of the specification, where there is one. -/
def getDefaultSize (size measureSpec : Int32) : Int32 :=
  if measureSpec &&& 0xC0000000 = 0 then size else measureSpec &&& 0x3FFFFFFF

/-- `MeasureSpec.EXACTLY`. -/
def exactly (size : Int32) : Int32 := 0x40000000 ||| size

/-- The height of the box is rounded down to 562, below that of the shape 1366 by 768. -/
theorem onMeasure_scales_rounded :
    onMeasure ⟨1366, 768, screenFit⟩ getDefaultSize (exactly 1000) (exactly 700) = ⟨1000, 562⟩ ∧
    Fits ⟨1366, 768, screenFit⟩ ⟨1000, 700⟩
      (onMeasure ⟨1366, 768, screenFit⟩ getDefaultSize (exactly 1000) (exactly 700)) ∧
    Fills ⟨1366, 768, screenFill⟩ ⟨1000, 700⟩
      (onMeasure ⟨1366, 768, screenFill⟩ getDefaultSize (exactly 1000) (exactly 700)) := by
  refine ⟨by decide +kernel, ?_, ?_⟩
  · exact ((onMeasure_scales getDefaultSize ⟨1366, 768, screenFit⟩ (exactly 1000) (exactly 700)
      (by decide +kernel) (by decide +kernel) (by decide +kernel) (by decide +kernel)).1 rfl).1
  · exact (onMeasure_scales getDefaultSize ⟨1366, 768, screenFill⟩ (exactly 1000) (exactly 700)
      (by decide +kernel) (by decide +kernel) (by decide +kernel) (by decide +kernel)).2 rfl

end Meet.MeetVideoView
