import Mathlib.Logic.Function.Basic
import Meet.Common.Run
import Meet.DiskLruCache.Basic

/-! `createVideoThumbnail` of `MeetSDK.java` over the disk cache. The call is synchronized;
only the clean-up thread of the cache runs beside it. -/
namespace Meet.MeetSDK
open DiskLruCache

/-! ### Keys -/

/-- A digit of `URLEncoder`. -/
def hexDigit (n : Nat) : Char :=
  if n < 10 then Char.ofNat (48 + n) else Char.ofNat (55 + n)

/-- `URLEncoder` keeps letters, digits and four signs, writes a space as a plus sign, and
escapes every other byte. -/
def encodeByte (n : Nat) : List Char :=
  let c := Char.ofNat n
  if (48 ≤ n ∧ n ≤ 57) ∨ (65 ≤ n ∧ n ≤ 90) ∨ (97 ≤ n ∧ n ≤ 122) ∨ c ∈ ['.', '-', '*', '_'] then [c]
  else if n = 32 then ['+']
  else ['%', hexDigit (n / 16), hexDigit (n % 16)]

/-- `UrlUtil.encode` of a path given by its UTF-8 bytes. -/
def encode (path : List UInt8) : Key := path.flatMap fun b => encodeByte b.toNat

/-- `validateKey` throws for a key with a space or a line end. -/
def validateKey (key : Key) : Bool := key.all fun c => c ≠ ' ' ∧ c ≠ '\n' ∧ c ≠ '\r'

theorem validateKey_encodeByte : ∀ n < 256, validateKey (encodeByte n) = true := by
  decide +kernel

/-- An encoded path is a valid key. -/
theorem validateKey_encode (path : List UInt8) : validateKey (encode path) = true := by
  simp only [validateKey, encode, List.all_eq_true, List.mem_flatMap]
  rintro c ⟨b, -, hc⟩
  exact List.all_eq_true.mp (validateKey_encodeByte b.toNat b.toNat_lt) c hc

/-! ### The call -/

/-- What the platform decides: which bytes `decodeStream` reads as a bitmap, and for which
keys the file can be created (a long path gives too long a file name). -/
structure Platform where
  decodable : Bytes → Bool
  creatable : Key → Bool

/-- A call for a path. `made` are the bytes that `compress` writes for the bitmap, where one
can be made of the video. `early` tells that the clean-up thread runs before `compress`. -/
structure Call where
  path : List UInt8
  made : Option Bytes
  early : Bool
deriving DecidableEq, Repr

/-- `getThumbnailFromDiskCache`, and whether it returns a bitmap. -/
def getThumbnailFromDiskCache (platform : Platform) (c : Cache) (key : Key) : Cache × Bool :=
  match c.get key with
  | (c, none) => (c, false)
  | (c, some _) =>
      match c.get key with
      | (c, none) => (c, false)
      | (c, some bytes) => (c, platform.decodable bytes)

/-- Where a call stands after `commit`: it returns, or `compress` follows. -/
inductive Progress where
  | returns (c : Cache)
  | commits (c : Cache) (png : Bytes)

/-- The bytes that `compress` is about to write. -/
def Progress.png : Progress → Bytes
  | .returns _ => []
  | .commits _ png => png

/-- `createVideoThumbnail` up to `commit`. A file that cannot be created leaves the editor
of its entry behind. -/
def Call.begin (platform : Platform) (c : Cache) (call : Call) : Progress :=
  let key := encode call.path
  if validateKey key then
    match getThumbnailFromDiskCache platform c key with
    | (c, true) => .returns c
    | (c, false) =>
        match call.made with
        | none => .returns c
        | some png =>
            match c.edit key with
            | (c, false) => .returns c
            | (c, true) =>
                if platform.creatable key then .commits ((c.createFile (.dirty key)).commit key) png
                else .returns c
  else .returns c

/-- `stored` is proof data: the bytes that `compress` wrote for a key. -/
structure State where
  cache : Cache
  stored : Key → Bytes

def createVideoThumbnail (platform : Platform) (s : State) (call : Call) : Option State :=
  let key := encode call.path
  match call.begin platform s.cache with
  | .returns c => some { s with cache := c }
  | .commits c png =>
      if call.early then
        c.trimToSize.map fun c =>
          ⟨c.writeFile (.clean key) png, Function.update s.stored key png⟩
      else
        (c.writeFile (.clean key) png).trimToSize.map fun c =>
          ⟨c, Function.update s.stored key png⟩

/-- What a later `get` reads for a key. -/
def State.found (s : State) (key : Key) : Option Bytes := (s.cache.get key).2

/-- The recorded size is the size on disk, which is within the limit, and what is found for
a key is what was stored for it. -/
def State.Accurate (s : State) : Prop :=
  s.cache.size = s.cache.total ∧ (s.cache.total : Int) ≤ maxSize ∧
    ∀ key bytes, s.found key = some bytes → bytes = s.stored key

/-- Where the call reaches `compress`, no byte is written. -/
def writesNothing (platform : Platform) (s : State) (call : Call) : Prop :=
  (call.begin platform s.cache).png = []

instance (platform : Platform) (s : State) (call : Call) :
    Decidable (writesNothing platform s call) :=
  inferInstanceAs (Decidable (_ = _))

/-! ### One call -/

structure State.Exact (s : State) : Prop where
  cache : s.cache.Exact
  stored : ∀ f ∈ s.cache.files, ∀ key, f.name = .clean key → f.bytes = s.stored key

variable {platform : Platform}

theorem State.Exact.accurate {s : State} (h : s.Exact) : s.Accurate := by
  have hTotal := h.cache.total_eq
  refine ⟨hTotal, hTotal ▸ h.cache.bound, ?_⟩
  intro key bytes hFound
  unfold found Cache.get at hFound
  split at hFound
  · simp at hFound
  · simp only [Cache.bytes?] at hFound
    split at hFound
    · obtain ⟨f, hFind, rfl⟩ := Option.map_eq_some_iff.mp hFound
      have hName : f.name = .clean key := by simpa using List.find?_some hFind
      exact h.stored f (List.mem_of_find?_eq_some hFind) key hName
    · simp at hFound

theorem exact_getThumbnail (platform : Platform) {c : Cache} (h : c.Exact) (key : Key) :
    (getThumbnailFromDiskCache platform c key).1.Exact ∧
    (getThumbnailFromDiskCache platform c key).1.files = c.files := by
  have hFirst := Cache.exact_get h key
  have hFiles := c.get_files key
  unfold getThumbnailFromDiskCache
  split
  · rename_i d hGet
    rw [hGet] at hFirst hFiles
    exact ⟨hFirst, hFiles⟩
  · rename_i d bytes hGet
    rw [hGet] at hFirst hFiles
    have hSecond := Cache.exact_get hFirst key
    have hSame := d.get_files key
    split <;> rename_i hAgain <;> rw [hAgain] at hSecond hSame <;>
      exact ⟨hSecond, hSame.trans hFiles⟩

/-- What the call has done when it returns without `compress`, or reaches it. -/
inductive Begun (c : Cache) (call : Call) : Progress → Prop where
  | returns {d : Cache} (exact : d.Exact) (files : d.files = c.files) :
      Begun c call (.returns d)
  | commits {b d : Cache} {png : Bytes} (exact : b.Exact) (files : b.files = c.files)
      (published : b.Published d (encode call.path) []) : Begun c call (.commits d png)

theorem begun_begin (platform : Platform) {c : Cache} (h : c.Exact) (call : Call) :
    Begun c call (call.begin platform c) := by
  obtain ⟨hGet, hGetFiles⟩ := exact_getThumbnail platform h (encode call.path)
  unfold Call.begin
  simp only [validateKey_encode, if_true]
  split
  · rename_i d hFound
    rw [hFound] at hGet hGetFiles
    exact .returns hGet hGetFiles
  · rename_i d hFound
    rw [hFound] at hGet hGetFiles
    split
    · exact .returns hGet hGetFiles
    · have hEdit := Cache.exact_edit hGet (encode call.path)
      have hEditFiles := (d.edit_files (encode call.path)).trans hGetFiles
      split
      · rename_i b hRefused
        rw [hRefused] at hEdit hEditFiles
        exact .returns hEdit hEditFiles
      · rename_i b hGranted
        obtain ⟨e, hEntry⟩ := d.entry_edit (encode call.path) (by rw [hGranted])
        rw [hGranted] at hEdit hEditFiles hEntry
        split
        · exact .commits hEdit hEditFiles (Cache.published_commit hEdit hEntry)
        · exact .returns hEdit hEditFiles

/-- The recorded size never grows, so nothing is trimmed. -/
theorem createVideoThumbnail_commits {s after : State} {call : Call} {b d : Cache} {png : Bytes}
    (hBegin : call.begin platform s.cache = .commits d png) (hExact : b.Exact)
    (hPublished : b.Published d (encode call.path) [])
    (hStep : createVideoThumbnail platform s call = some after) :
    after = ⟨d.writeFile (.clean (encode call.path)) png,
      Function.update s.stored (encode call.path) png⟩ := by
  have hBefore : d.trimToSize = some d := Cache.trimToSize_of_le (hPublished.size_le hExact)
  have hAfter := Cache.trimToSize_of_le ((hPublished.write png).size_le hExact)
  simp only [createVideoThumbnail, hBegin, hBefore, hAfter, Option.map_some, ite_self] at hStep
  exact (Option.some.inj hStep).symm

theorem exact_createVideoThumbnail {s after : State} {call : Call} (h : s.Exact)
    (hNothing : writesNothing platform s call)
    (hStep : createVideoThumbnail platform s call = some after) : after.Exact := by
  have hBegun := begun_begin platform h.cache call
  unfold writesNothing at hNothing
  cases hBegin : call.begin platform s.cache with
  | returns d =>
      rw [hBegin] at hBegun
      cases hBegun with
      | returns exact files =>
          simp only [createVideoThumbnail, hBegin] at hStep
          obtain rfl := Option.some.inj hStep
          exact ⟨exact, fun f hf => h.stored f (files ▸ hf)⟩
  | commits d png =>
      rw [hBegin] at hBegun hNothing
      obtain rfl : png = [] := hNothing
      cases hBegun with
      | commits exact files published =>
          obtain rfl := createVideoThumbnail_commits hBegin exact published hStep
          have hWritten := published.write []
          refine ⟨hWritten.exact exact, ?_⟩
          intro f hf key hName
          simp only [hWritten.files] at hf
          rcases List.mem_append.mp hf with hOld | hNew
          · obtain ⟨hMem, hNe⟩ := List.mem_filter.mp hOld
            have hKey : key ≠ encode call.path := by
              rintro rfl
              simp [hName] at hNe
            simp only [Function.update_of_ne hKey]
            exact h.stored f (files ▸ hMem) key hName
          · obtain rfl := List.mem_singleton.mp hNew
            obtain rfl : encode call.path = key := by simpa using hName
            simp

/-- Bytes written after the commit are on disk and not in the recorded size. -/
theorem not_accurate_createVideoThumbnail {s after : State} {call : Call} (h : s.Exact)
    (hSomething : ¬ writesNothing platform s call)
    (hStep : createVideoThumbnail platform s call = some after) : ¬ after.Accurate := by
  have hBegun := begun_begin platform h.cache call
  unfold writesNothing at hSomething
  cases hBegin : call.begin platform s.cache with
  | returns d => simp [hBegin, Progress.png] at hSomething
  | commits d png =>
      rw [hBegin] at hBegun hSomething
      have hPng : 0 < png.length := List.length_pos_of_ne_nil hSomething
      cases hBegun with
      | commits exact files published =>
          obtain rfl := createVideoThumbnail_commits hBegin exact published hStep
          have hTotal := (published.write png).total_eq exact
          rintro ⟨hSize, -, -⟩
          simp only at hSize
          omega

/-! ### Whole histories -/

theorem exact_of_run {start s : State} (hStart : start.Exact) {calls : List Call}
    (run : Run (createVideoThumbnail platform) (writesNothing platform) start calls s) :
    s.Exact := by
  refine run.invariant hStart ?_
  intro before call after hBefore hNothing hStep
  exact exact_createVideoThumbnail hBefore hNothing hStep

/-- The size is recorded before the data is written: the cache is accurate after every call
exactly when no call writes a byte. -/
theorem accurate_iff_writesNothing {start s : State} (hStart : start.Exact) {calls : List Call}
    (run : Run (createVideoThumbnail platform) unguarded start calls s) :
    (∀ first second middle, calls = first ++ second →
      Run (createVideoThumbnail platform) unguarded start first middle → middle.Accurate) ↔
    Run (createVideoThumbnail platform) (writesNothing platform) start calls s := by
  constructor
  · intro hAccurate
    induction run with
    | nil => exact .nil _
    | @snoc t u calls call prior meets last ih =>
        have hPrior := ih fun first second middle hCalls hRun =>
          hAccurate first (second ++ [call]) middle (by simp [hCalls]) hRun
        refine .snoc hPrior ?_ last
        by_contra hSomething
        refine not_accurate_createVideoThumbnail (exact_of_run hStart hPrior) hSomething last ?_
        exact hAccurate (calls ++ [call]) [] u (by simp) (.snoc prior meets last)
  · rintro hNothing first second middle rfl hFirst
    obtain ⟨t, hGuarded⟩ := hNothing.first
    obtain rfl := hGuarded.unique hFirst
    exact (exact_of_run hStart hGuarded).accurate

/-- A platform on which every file that holds a byte is a bitmap. -/
def anyBitmap : Platform := ⟨fun bytes => !bytes.isEmpty, fun _ => true⟩

/-- A cache that holds three bytes for the path of the letter `a`. -/
def oneThumbnail : State :=
  ⟨⟨3, [⟨⟨['a'], 3, true⟩, false⟩], [⟨.clean ['a'], [1, 2, 3]⟩]⟩, fun _ => [1, 2, 3]⟩

theorem exact_oneThumbnail : oneThumbnail.Exact where
  cache :=
    { keys := List.nodup_singleton _
      files := List.Perm.refl _
      unread := by simp [oneThumbnail, Cache.records]
      size := rfl
      bound := by decide }
  stored := by simp [oneThumbnail]

/-- The thumbnail is found twice, and none is made for the letter `b`. -/
def foundTwice : List Call :=
  [⟨[97], some [4], true⟩, ⟨[98], none, false⟩, ⟨[97], some [5], false⟩]

theorem accurate_iff_writesNothing_found : ∃ s,
    Run (createVideoThumbnail anyBitmap) unguarded oneThumbnail foundTwice s ∧
    oneThumbnail.Exact ∧ s.cache.size = 3 ∧ s.Accurate := by
  obtain ⟨s, hNothing, hSize⟩ := Run.exists_of_execGuarded (fun s : State => s.cache.size = 3)
    (show (execGuarded (createVideoThumbnail anyBitmap) (writesNothing anyBitmap) oneThumbnail
      foundTwice).any _ = true by decide +kernel)
  have run : Run (createVideoThumbnail anyBitmap) unguarded oneThumbnail foundTwice s :=
    hNothing.mono fun _ _ _ => trivial
  refine ⟨s, run, exact_oneThumbnail, hSize, ?_⟩
  exact (accurate_iff_writesNothing exact_oneThumbnail run).mpr hNothing _ [] s (by simp) run

/-- A thumbnail of three bytes in an empty directory: the recorded size stays zero. -/
theorem exists_not_accurate : ∃ s, Run (createVideoThumbnail anyBitmap) unguarded
    ⟨.empty, fun _ => []⟩ [⟨[97], some [1, 2, 3], false⟩] s ∧ ¬ s.Accurate := by
  obtain ⟨s, run, hSize, hTotal⟩ := Run.exists_of_exec
    (fun s : State => s.cache.size = 0 ∧ s.cache.total = 3)
    (show (exec (createVideoThumbnail anyBitmap) ⟨.empty, fun _ => []⟩
      [⟨[97], some [1, 2, 3], false⟩]).any _ = true by decide +kernel)
  refine ⟨s, run, ?_⟩
  rintro ⟨hEqual, -, -⟩
  omega

end Meet.MeetSDK
