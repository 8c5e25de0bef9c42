import LiveStream.Lib.Run

/-!
# The messages between player and back-end

`abr_schema`: the front-end's reports (`Segment`, `Value`, `Metrics`) as the JSON converter
hands them to the back-end, and the `Decision` the back-end answers with. The C++ `int`s
are integers here; none of the components below computes with them near the word size.
-/

namespace LiveStream
namespace AbrSchema

/-- Placeholder of a byte count the JSON object did not carry. -/
def NOT_PRESENT : ℤ := -1

/-- A timestamped integer. -/
structure Value where
  value : ℤ
  timestamp : ℤ
deriving DecidableEq, Repr

/-- `Segment::State`. -/
inductive State where
  | loading
  | downloaded
  | progress
deriving DecidableEq, Repr

/-- One report: segment `index` had `loaded` of `total` bytes at `timestamp`. -/
structure Segment where
  index : ℤ
  timestamp : ℤ
  loaded : ℤ := NOT_PRESENT
  total : ℤ := NOT_PRESENT
  /-- `none` when the JSON object carries no quality: the constructor leaves the field
  uninitialised then. -/
  quality : Option ℤ := none
  state : State
deriving DecidableEq, Repr

/-- One POSTed batch of front-end metrics. -/
structure Metrics where
  droppedFrames : List Value := []
  playerTime : List Value := []
  bufferLevel : List Value := []
  segments : List Segment := []
deriving DecidableEq, Repr

/-- The quality chosen for segment `index`, stamped with the newest report seen. -/
structure Decision where
  index : ℤ
  quality : ℤ
  timestamp : ℤ
deriving DecidableEq, Repr

namespace Decision

/-- The default constructor. -/
def default : Decision := ⟨-1, -1, -1⟩

/-- Path of the long poll that waits for the decision itself. -/
def path (d : Decision) : String := "/request/" ++ toString d.index

/-- Path of the long poll that waits for the segment. -/
def resourcePath (d : Decision) : String := "/piece/" ++ toString d.index

/-- Path of the decided segment in the store. -/
def videoPath (d : Decision) : String :=
  "/video" ++ toString d.quality ++ "/" ++ toString d.index ++ ".m4s"

/-- The JSON text answered on `path`. -/
def serialize (d : Decision) : String :=
  "\x7b" ++ "\"index\":" ++ toString d.index ++ "," ++ "\"quality\":" ++ toString d.quality ++ ","
    ++ "\"timestamp\":" ++ toString d.timestamp ++ "\x7d"

/-- The decision that means "nothing to do yet". -/
def noop (d : Decision) : Bool := d.index == -1 && d.quality == -1 && d.timestamp == -1

end Decision

end AbrSchema
end LiveStream
