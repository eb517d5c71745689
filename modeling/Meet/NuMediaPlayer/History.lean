import Meet.NuMediaPlayer.Handler

/-! A player with what has happened to it: the messages posted to `mEventHandler`, and
whether its preparation has succeeded and its release has run. -/
namespace Meet.NuMediaPlayer

/-- The operation at the head of the code. -/
def headOperation : Program → Option Op
  | .op operation _ => some operation
  | _ => none

/-- The operation that an action performs. -/
def State.operation (s : State) : Act → Option Op
  | .app number _ => s.apps[number]?.bind fun thread => headOperation thread.code
  | .media _ => headOperation s.media.code
  | _ => none

theorem State.operation_app {s : State} {number : Nat} {thread : AppThread} {operation : Op}
    {next : Program} (hThread : s.apps[number]? = some thread)
    (hCode : thread.code = .op operation next) (answer : Bool) :
    s.operation (.app number answer) = some operation := by
  simp [State.operation, hThread, hCode, headOperation]

theorem State.operation_media {s : State} {operation : Op} {next : Program}
    (hCode : s.media.code = .op operation next) (answer : Bool) :
    s.operation (.media answer) = some operation := by
  simp [State.operation, hCode, headOperation]

/-- The fields besides `player` are proof data. Only the runnable of `prepareAsync` stores
`PREPARED` on the media thread, and only that of `release` stores `END`. -/
structure History where
  player : State
  posted : List Media
  succeeded : Bool
  released : Bool
deriving DecidableEq, Repr

namespace History

def initial (threads : Nat) : History := ⟨NuMediaPlayer.initial threads, [], false, false⟩

/-- What an operation adds to the history. -/
def record (h : History) (player : State) : Option Op → History
  | some (.notify message) => { h with player := player, posted := h.posted ++ [message] }
  | some (.setState .prepared) => { h with player := player, succeeded := true }
  | some (.setState .ending) => { h with player := player, released := true }
  | _ => { h with player := player }

def step (h : History) (act : Act) : Option History :=
  (NuMediaPlayer.step h.player act).map fun player => h.record player (h.player.operation act)

@[simp]
theorem record_player (h : History) (player : State) (operation : Option Op) :
    (h.record player operation).player = player := by
  unfold record
  split <;> rfl

/-- The history only watches the player. -/
theorem run_player {guard : History → Act → Prop} {threads : Nat} {acts : List Act} {h : History}
    (run : Run step guard (initial threads) acts h) :
    Run NuMediaPlayer.step unguarded (NuMediaPlayer.initial threads) acts h.player := by
  induction run with
  | nil => exact .nil _
  | snoc prior meets last ih =>
      obtain ⟨player, hStep, rfl⟩ := Option.map_eq_some_iff.mp last
      refine .snoc ih trivial ?_
      simpa using hStep

end History
end Meet.NuMediaPlayer
