import LiveStream.Lib.Checked
import LiveStream.Video.TrackOrder

/-!
# The tables of the video

What the constructor of `SegmentProgressAbr` leaves for the algorithms: the tracks in
`segments`, and the bitrates in `bitrate_array`. Reads are checked: they end in `none` outside
the vectors. Nothing is assumed of the lengths of the tracks; a `Ladder` is a video whose tracks
are equally long.

* `length_segments_le`, the constructor finds a bitrate for every track;
* `Tables.ofConfig` and `Ladder.ofConfig`, so every configuration with a track gives these tables.
-/

namespace LiveStream
namespace Abr

open Lib
open Video (VideoInfo)

/-! ## The constructor -/

/-- A track goes into `segments` under one number at most. -/
theorem length_flatMap_filter_le {numbers : List ℕ} (hnumbers : numbers.Nodup)
    (configs : List Video.VideoConfig) :
    (numbers.flatMap fun i => configs.filter fun c => Video.resourceName i = c.resource).length ≤
      configs.length := by
  induction numbers generalizing configs with
  | nil => simp
  | cons i numbers ih =>
    rw [List.nodup_cons] at hnumbers
    -- the other numbers find nothing among the tracks of this one
    have hothers : (numbers.flatMap fun j =>
          configs.filter fun c => Video.resourceName j = c.resource) =
        numbers.flatMap fun j => (configs.filter fun c => ¬Video.resourceName i = c.resource).filter
          fun c => Video.resourceName j = c.resource := by
      apply List.flatMap_congr
      intro j hj
      rw [List.filter_filter]
      apply List.filter_congr
      intro c _
      by_cases hc : Video.resourceName j = c.resource
      · have hne : Video.resourceName i ≠ c.resource := by
          intro hi
          rw [Video.resource_injective (hi.trans hc.symm)] at hnumbers
          exact hnumbers.1 hj
        simp [hc, hne]
      · simp [hc]
    have hrest := ih hnumbers.2 (configs.filter fun c => ¬Video.resourceName i = c.resource)
    have hsplit := List.length_eq_length_filter_add (l := configs)
      fun c => decide (Video.resourceName i = c.resource)
    rw [List.flatMap_cons, List.length_append, hothers, hsplit]
    simp only [decide_not] at hrest ⊢
    omega

theorem length_segments_le (config : Video.DashBackendConfig) :
    (Video.segments config).length ≤ (Video.bitrateArray config).length := by
  have hrates : (Video.bitrateArray config).length = config.videoConfigs.length := by
    rw [Video.bitrateArray, (perm_sortOn _ _).length_eq, List.length_map]
  have hle := length_flatMap_filter_le (List.nodup_range (n := config.videoConfigs.length))
    config.videoConfigs
  rw [hrates, Video.segments, ← List.map_flatMap, List.length_map]
  exact hle

theorem bitrateArray_ne_nil {config : Video.DashBackendConfig} (h : Video.segments config ≠ []) :
    Video.bitrateArray config ≠ [] := by
  have hle := length_segments_le config
  have hpos := List.length_pos_iff.mpr h
  exact List.length_pos_iff.mp (by omega)

/-! ## The tables -/

/-- The members `segments` and `bitrate_array`. -/
structure Tables where
  segments : List (List VideoInfo)
  bitrateArray : List ℤ
  nonempty : segments ≠ []
  rates : bitrateArray ≠ []

namespace Tables

variable (v : Tables)

/-- `segments[0]`. -/
def firstTrack : List VideoInfo := v.segments.head v.nonempty

/-- `segments[quality]`. -/
def trackAt (quality : ℤ) : Option (List VideoInfo) := checkedGet v.segments quality

/-- `segments[quality][index]`. -/
def infoAt (quality index : ℤ) : Option VideoInfo := do
  let track ← v.trackAt quality
  checkedGet track index

/-- `bitrate_array[quality]`. -/
def rateAt (quality : ℤ) : Option ℤ := checkedGet v.bitrateArray quality

/-- The tables the constructor fills from a configuration that has a track. -/
def ofConfig (config : Video.DashBackendConfig) (h : Video.segments config ≠ []) : Tables where
  segments := Video.segments config
  bitrateArray := Video.bitrateArray config
  nonempty := h
  rates := bitrateArray_ne_nil h

end Tables

/-- A video with equally long tracks, and a bitrate for each of them. -/
structure Ladder extends Tables where
  length : ℕ
  equallyLong : ∀ track ∈ segments, track.length = length
  rateEach : segments.length ≤ bitrateArray.length

namespace Ladder

/-- The tables of a configuration whose tracks are equally long. -/
def ofConfig (config : Video.DashBackendConfig) (h : Video.segments config ≠ []) (length : ℕ)
    (equallyLong : ∀ track ∈ Video.segments config, track.length = length) : Ladder where
  toTables := Tables.ofConfig config h
  length := length
  equallyLong := equallyLong
  rateEach := length_segments_le config

variable (v : Ladder)

/-- What is recorded of a segment. -/
def info (quality index : ℤ) : VideoInfo :=
  (v.segments.getD quality.toNat []).getD index.toNat ⟨0, 0, 0⟩

/-- The size of a segment. -/
def size (quality index : ℤ) : ℕ :=
  ((v.segments.getD quality.toNat []).getD index.toNat ⟨0, 0, 0⟩).size

def rate (quality : ℤ) : ℤ := v.bitrateArray.getD quality.toNat 0

/-- The number of a track. -/
def IsTrack (quality : ℤ) : Prop := 0 ≤ quality ∧ quality < v.segments.length

variable {v}

theorem length_firstTrack : v.firstTrack.length = v.length :=
  v.equallyLong _ (List.head_mem v.nonempty)

theorem trackAt_eq {q : ℤ} (h : v.IsTrack q) :
    v.trackAt q = some (v.segments.getD q.toNat []) ∧
      (v.segments.getD q.toNat []).length = v.length := by
  have hlt : q.toNat < v.segments.length := by
    have := h.1
    have := h.2
    omega
  refine ⟨checkedGet_eq h.1 h.2 [], v.equallyLong _ ?_⟩
  rw [List.getD_eq_getElem _ _ hlt]
  exact List.getElem_mem hlt

theorem infoAt_eq {q i : ℤ} (h : v.IsTrack q) (h0 : 0 ≤ i) (hL : i < v.length) :
    v.infoAt q i = some (v.info q i) := by
  obtain ⟨htrack, hlen⟩ := trackAt_eq h
  rw [Tables.infoAt, htrack, Option.bind_eq_bind, Option.bind_some]
  exact checkedGet_eq h0 (by omega) _

theorem isTrack_of_infoAt {q i : ℤ} {x : VideoInfo} (h : v.infoAt q i = some x) :
    v.IsTrack q ∧ 0 ≤ i ∧ i < v.length := by
  rw [Tables.infoAt, Option.bind_eq_bind, Option.bind_eq_some_iff] at h
  obtain ⟨track, htrack, hinfo⟩ := h
  obtain ⟨hq0, hq⟩ := lt_of_checkedGet htrack
  obtain ⟨hi0, hi⟩ := lt_of_checkedGet hinfo
  have hmem : track ∈ v.segments := mem_of_checkedGet htrack
  rw [v.equallyLong _ hmem] at hi
  exact ⟨⟨hq0, hq⟩, hi0, hi⟩

theorem rateAt_eq {q : ℤ} (h : v.IsTrack q) : v.rateAt q = some (v.rate q) := by
  have hrates := v.rateEach
  have hlt := h.2
  exact checkedGet_eq h.1 (by omega) 0

end Ladder

end Abr
end LiveStream
