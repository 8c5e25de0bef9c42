import LiveStream.Lib.Newest

/-!
# The video's metadata and its three readers

`downloads/export.py` writes one configuration file per video: a track per quality, and for
each track the size, VMAF and start time of its segments. The C++ algorithms read it in the
constructor of `SegmentProgressAbr` and address it as `segments[quality][index]`. The Python
side reads the same file through the functions of `exp/abr/video.py`.

`SameMetadata` says that the two sides have the same data for a segment.
-/

namespace LiveStream
namespace Video

open Lib

/-! ## The configuration file -/

/-- What is recorded of one segment of a track. -/
structure VideoInfo where
  startTime : ℚ
  vmaf : ℚ
  size : ℕ
deriving DecidableEq

/-- One track. -/
structure VideoConfig where
  resource : String
  path : String
  quality : ℤ
  videoInfo : List VideoInfo

/-- The configuration file, without the site's paths. -/
structure DashBackendConfig where
  videoConfigs : List VideoConfig
  segments : ℕ

/-- `vmaf.json` with the sizes of the segment files: for each quality, in the file's order,
what is known of segments `1, 2, …`. -/
structure VmafJson where
  tracks : List (ℤ × List VideoInfo)
  nonempty : tracks ≠ []
  /-- The qualities are the keys of a JSON object. -/
  distinct : (tracks.map Prod.fst).Nodup
  /-- The tracks cut one video. -/
  segments : ℕ
  equallyLong : ∀ t ∈ tracks, t.2.length = segments

/-- `main` of `export.py`: entry `i` of a track's `info` describes segment `i + 1`, and the
last segment has no entry. -/
def exportConfig (vmaf : VmafJson) : DashBackendConfig where
  videoConfigs := vmaf.tracks.zipIdx.map fun p =>
    { resource := "/video" ++ toString p.2
      path := "/video_" ++ toString p.1.1
      quality := p.1.1
      videoInfo := p.1.2.dropLast }
  segments := vmaf.segments

/-! ## The C++ side -/

/-- `segments` as the constructor of `SegmentProgressAbr` fills it. -/
def segments (config : DashBackendConfig) : List (List VideoInfo) :=
  (List.range config.videoConfigs.length).flatMap fun i =>
    (config.videoConfigs.filter fun c => "/video" ++ toString i = c.resource).map
      VideoConfig.videoInfo

/-- `segments[quality][index]`; `none` outside the vectors. -/
def segmentInfo (config : DashBackendConfig) (quality index : ℕ) : Option VideoInfo :=
  (segments config)[quality]?.bind fun track => track[index]?

/-! ## The Python side -/

/-- A dictionary with its keys in order of insertion. -/
structure Dict (κ α : Type) where
  keys : List κ
  get : κ → Option α

def Dict.empty {κ α : Type} : Dict κ α := ⟨[], fun _ => none⟩

/-- `d[k] = v`. -/
def Dict.set {κ α : Type} [DecidableEq κ] (d : Dict κ α) (k : κ) (v : α) : Dict κ α where
  keys := if k ∈ d.keys then d.keys else d.keys ++ [k]
  get := Function.update d.get k (some v)

/-- `l[k]`, where a negative subscript counts from the end. -/
def subscript {α : Type} (l : List α) (k : ℤ) : Option α :=
  if 0 ≤ k then l[k.toNat]? else if -l.length ≤ k then l[(l.length + k).toNat]? else none

/-- `__get_json`. In the functions below `none` is a raised `KeyError` or `IndexError`. -/
def getJson (config : DashBackendConfig) : Dict ℤ (List VideoInfo) :=
  config.videoConfigs.foldl (fun info son => info.set son.quality son.videoInfo) Dict.empty

/-- The first value of the dictionary has as many entries as the video has chunks. -/
def getVideoChunks (config : DashBackendConfig) : Option ℕ := do
  let quality ← (getJson config).keys.head?
  let info ← (getJson config).get quality
  return info.length

def getVideoBitRate (config : DashBackendConfig) (quality : ℕ) : Option ℤ :=
  (sortOn id (getJson config).keys)[quality]?

def getNbrVideoBitRate (config : DashBackendConfig) : ℕ := (getJson config).keys.length

/-- A field of entry `index - 1` of the track the bitrate is looked up for, 0 outside the
video. -/
def getField {α : Type} [Zero α] (field : VideoInfo → α) (config : DashBackendConfig)
    (bitrate : Option ℤ) (index : ℤ) : Option α := do
  let chunks ← getVideoChunks config
  if chunks < index ∨ index < 0 then return 0
  let bitrate ← bitrate
  let info ← (getJson config).get bitrate
  let entry ← subscript info (index - 1)
  return field entry

def getChunkSize (config : DashBackendConfig) (quality : ℕ) (index : ℤ) : Option ℕ :=
  getField VideoInfo.size config (getVideoBitRate config quality) index

/-- `__get_start_time`. -/
def getStartTime (config : DashBackendConfig) (quality : ℕ) (index : ℤ) : Option ℚ :=
  getField VideoInfo.startTime config (getVideoBitRate config quality) index

def getVmaf (config : DashBackendConfig) (index : ℤ) (bitrate : ℤ) : Option ℚ :=
  getField VideoInfo.vmaf config (some bitrate) index

/-- The time from the start of a chunk to the next one's; the last chunk takes the one
before. -/
def getChunkTime (config : DashBackendConfig) (quality : ℕ) (index : ℤ) : Option ℚ := do
  let chunks ← getVideoChunks config
  if chunks < index ∨ index < 0 then return 0
  let index := if index = chunks then index - 1 else index
  let t1 ← getStartTime config quality index
  let t2 ← getStartTime config quality (index + 1)
  return t2 - t1

/-- Both sides have the same size, VMAF and start time for segment `i` in quality `q`. -/
def SameMetadata (config : DashBackendConfig) (q i : ℕ) : Prop :=
  ∃ entry bitrate, segmentInfo config q i = some entry ∧
    getVideoBitRate config q = some bitrate ∧
    getChunkSize config q i = some entry.size ∧
    getVmaf config i bitrate = some entry.vmaf ∧
    getStartTime config q i = some entry.startTime

end Video
end LiveStream
