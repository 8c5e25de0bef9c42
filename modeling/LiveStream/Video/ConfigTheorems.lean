import LiveStream.Video.Config

/-!
# Who reads which entry of an exported file

* `segments_exportConfig`, the table the C++ side builds of an exported file;
* `getJson_exportConfig` and `getVideoBitRate_exportConfig`, the dictionary and the bitrates
  of the Python side;
* `segmentInfo_exportConfig` and `entry_exportConfig`, the entries the two sides read for a
  segment;
* `same_metadata_iff`, when the two sides agree about a segment.
-/

namespace LiveStream
namespace Video

open Lib

/-! ## An exported file on the C++ side -/

theorem resource_injective : Function.Injective fun i : ℕ => "/video" ++ toString i := by
  intro i j hij
  have hlist : ("/video" ++ toString i).toList = ("/video" ++ toString j).toList :=
    congrArg String.toList hij
  rw [String.toList_append, String.toList_append, List.append_cancel_left_eq] at hlist
  exact Nat.repr_injective (String.toList_injective hlist)

/-- Looking up the elements by their positions' names gives the list back. -/
theorem flatMap_filter_zipIdx {α β : Type} [DecidableEq β] {name : ℕ → β}
    (hname : Function.Injective name) (l : List α) :
    (List.range l.length).flatMap (fun i =>
      (l.zipIdx.filter fun p => name i = name p.2).map Prod.fst) = l := by
  induction l using List.reverseRecOn with
  | nil => rfl
  | append_singleton l a ih =>
    have hpos : ∀ p ∈ l.zipIdx, p.2 < l.length := by
      intro p hp
      have hlt := (List.mem_zipIdx hp).2.1
      omega
    have hzip : (l ++ [a]).zipIdx = l.zipIdx ++ [(a, l.length)] := by
      simp [List.zipIdx_append]
    have hearlier : ∀ i ∈ List.range l.length,
        (((l ++ [a]).zipIdx.filter fun p => name i = name p.2).map Prod.fst) =
          ((l.zipIdx.filter fun p => name i = name p.2).map Prod.fst) := by
      intro i hi
      have hne : name i ≠ name l.length :=
        fun h => (List.mem_range.mp hi).ne (hname h)
      simp [hzip, hne]
    have hlast : ((l ++ [a]).zipIdx.filter fun p => name l.length = name p.2).map Prod.fst =
        [a] := by
      have hnone : (l.zipIdx.filter fun p => name l.length = name p.2) = [] := by
        rw [List.filter_eq_nil_iff]
        intro p hp
        have hne : name l.length ≠ name p.2 := fun h => (hpos p hp).ne (hname h).symm
        simpa using hne
      rw [hzip, List.filter_append, hnone]
      simp
    rw [List.length_append, List.length_singleton, List.range_succ, List.flatMap_append,
      List.flatMap_congr hearlier, ih, List.flatMap_singleton, hlast]

/-- The C++ table holds the tracks in the order of the file. -/
theorem segments_exportConfig (vmaf : VmafJson) :
    segments (exportConfig vmaf) = vmaf.tracks.map fun t => t.2.dropLast := by
  conv_rhs => rw [← flatMap_filter_zipIdx resource_injective vmaf.tracks]
  simp only [segments, exportConfig, List.length_map, List.length_zipIdx, List.filter_map,
    List.map_map, List.map_flatMap]
  rfl

/-- For segment `i` the C++ side reads entry `i` of track `q`, which the last segment does not
have. -/
theorem segmentInfo_exportConfig (vmaf : VmafJson) {q : ℕ} {t : ℤ × List VideoInfo}
    (ht : vmaf.tracks[q]? = some t) (i : ℕ) :
    segmentInfo (exportConfig vmaf) q i = if i < vmaf.segments - 1 then t.2[i]? else none := by
  rw [segmentInfo, segments_exportConfig, List.getElem?_map, ht, Option.map_some,
    Option.bind_some, List.getElem?_dropLast, vmaf.equallyLong t (List.mem_of_getElem? ht)]

/-! ## An exported file on the Python side -/

theorem foldl_set {κ α : Type} [DecidableEq κ] (l : List (κ × α)) (hl : (l.map Prod.fst).Nodup) :
    (l.foldl (fun d t => d.set t.1 t.2) Dict.empty).keys = l.map Prod.fst ∧
      ∀ t ∈ l, (l.foldl (fun d t => d.set t.1 t.2) Dict.empty).get t.1 = some t.2 := by
  induction l using List.reverseRecOn with
  | nil => exact ⟨rfl, fun t ht => absurd ht List.not_mem_nil⟩
  | append_singleton l a ih =>
    rw [List.map_append, List.map_singleton, List.nodup_append] at hl
    obtain ⟨hl, -, hdisjoint⟩ := hl
    have hnew : ∀ t ∈ l, t.1 ≠ a.1 := fun t ht =>
      hdisjoint t.1 (List.mem_map_of_mem ht) a.1 (List.mem_singleton_self _)
    obtain ⟨hkeys, hget⟩ := ih hl
    rw [List.foldl_append, List.foldl_cons, List.foldl_nil]
    constructor
    · have hfresh : a.1 ∉ l.map Prod.fst := by
        intro hmem
        obtain ⟨t, ht, hta⟩ := List.mem_map.mp hmem
        exact hnew t ht hta
      rw [Dict.set, hkeys, if_neg hfresh, List.map_append, List.map_singleton]
    · intro t ht
      rcases List.mem_append.mp ht with ht | ht
      · exact (Function.update_of_ne (hnew t ht) _ _).trans (hget t ht)
      · rw [List.mem_singleton.mp ht]
        exact Function.update_self ..

/-- The dictionary holds every track under its bitrate. -/
theorem getJson_exportConfig (vmaf : VmafJson) :
    (getJson (exportConfig vmaf)).keys = vmaf.tracks.map Prod.fst ∧
      ∀ t ∈ vmaf.tracks, (getJson (exportConfig vmaf)).get t.1 = some t.2.dropLast := by
  set tracks := vmaf.tracks.map fun t => (t.1, t.2.dropLast) with htracks
  have hjson : getJson (exportConfig vmaf) =
      tracks.foldl (fun d t => d.set t.1 t.2) Dict.empty := by
    rw [htracks, ← List.zipIdx_map_fst 0 vmaf.tracks, List.map_map]
    simp only [getJson, exportConfig, List.foldl_map, Function.comp]
  have hfst : tracks.map Prod.fst = vmaf.tracks.map Prod.fst := by
    rw [htracks, List.map_map]
    rfl
  obtain ⟨hkeys, hget⟩ := foldl_set tracks (hfst ▸ vmaf.distinct)
  rw [hjson]
  refine ⟨hkeys.trans hfst, fun t ht => ?_⟩
  exact hget (t.1, t.2.dropLast) (List.mem_map_of_mem ht)

theorem getVideoChunks_exportConfig (vmaf : VmafJson) :
    getVideoChunks (exportConfig vmaf) = some (vmaf.segments - 1) := by
  obtain ⟨hkeys, hget⟩ := getJson_exportConfig vmaf
  obtain ⟨t, ts, htracks⟩ := List.exists_cons_of_ne_nil vmaf.nonempty
  have ht : t ∈ vmaf.tracks := by simp [htracks]
  simp [getVideoChunks, hkeys, htracks, hget t ht, vmaf.equallyLong t ht]

/-- The tracks in order of bitrate, the order in which Python numbers the qualities. -/
def VmafJson.byBitRate (vmaf : VmafJson) : List (ℤ × List VideoInfo) := sortOn Prod.fst vmaf.tracks

theorem getVideoBitRate_exportConfig (vmaf : VmafJson) (q : ℕ) :
    getVideoBitRate (exportConfig vmaf) q = vmaf.byBitRate[q]?.map Prod.fst := by
  have hsort : sortOn id (vmaf.tracks.map Prod.fst) = vmaf.byBitRate.map Prod.fst :=
    (List.map_insertionSort _ _ Prod.fst vmaf.tracks fun _ _ _ _ => Iff.rfl).symm
  rw [getVideoBitRate, (getJson_exportConfig vmaf).1, hsort, List.getElem?_map]

theorem getNbrVideoBitRate_exportConfig (vmaf : VmafJson) :
    getNbrVideoBitRate (exportConfig vmaf) = vmaf.tracks.length := by
  rw [getNbrVideoBitRate, (getJson_exportConfig vmaf).1, List.length_map]

theorem exists_byBitRate {vmaf : VmafJson} {q : ℕ} (hq : q < vmaf.tracks.length) :
    ∃ t ∈ vmaf.tracks, vmaf.byBitRate[q]? = some t := by
  have hlen : vmaf.byBitRate.length = vmaf.tracks.length := List.length_insertionSort _ _
  obtain ⟨t, ht⟩ : ∃ t, vmaf.byBitRate[q]? = some t :=
    ⟨_, List.getElem?_eq_getElem (hlen ▸ hq)⟩
  exact ⟨t, mem_sortOn.mp (List.mem_of_getElem? ht), ht⟩

theorem exists_getVideoBitRate {vmaf : VmafJson} {q : ℕ} (hq : q < vmaf.tracks.length) :
    ∃ bitrate, getVideoBitRate (exportConfig vmaf) q = some bitrate := by
  obtain ⟨t, -, ht⟩ := exists_byBitRate hq
  exact ⟨t.1, by rw [getVideoBitRate_exportConfig, ht, Option.map_some]⟩

/-- No index makes a reader raise: past the end of the video there is nothing to read, and 0 counts
from the end of the track. -/
theorem exists_getField {α : Type} [Zero α] (field : VideoInfo → α) {vmaf : VmafJson}
    {t : ℤ × List VideoInfo} (ht : t ∈ vmaf.tracks) {i : ℤ} (hi : 1 ≤ i ∨ 1 ≤ vmaf.segments - 1) :
    ∃ x, getField field (exportConfig vmaf) (some t.1) i = some x := by
  simp only [getField, getVideoChunks_exportConfig, Option.bind_eq_bind, Option.bind_some,
    (getJson_exportConfig vmaf).2 t ht]
  split
  · exact ⟨_, rfl⟩
  · next hinside =>
    have hlen : t.2.dropLast.length = vmaf.segments - 1 := by
      rw [List.length_dropLast, vmaf.equallyLong t ht]
    obtain ⟨e, he⟩ : ∃ e, subscript t.2.dropLast (i - 1) = some e := by
      rw [subscript]
      split
      · exact ⟨_, List.getElem?_eq_getElem (by omega)⟩
      · rw [if_pos (by omega)]
        exact ⟨_, List.getElem?_eq_getElem (by omega)⟩
    rw [he]
    exact ⟨_, rfl⟩

/-- The same for the track a quality stands for. -/
theorem exists_getField_quality {α : Type} [Zero α] (field : VideoInfo → α) {vmaf : VmafJson}
    {q : ℕ} (hq : q < vmaf.tracks.length) (hM : 1 ≤ vmaf.segments - 1) (i : ℤ) :
    ∃ x, getField field (exportConfig vmaf) (getVideoBitRate (exportConfig vmaf) q) i = some x := by
  obtain ⟨t, ht, hbyrate⟩ := exists_byBitRate hq
  rw [getVideoBitRate_exportConfig, hbyrate, Option.map_some]
  exact exists_getField field ht (.inr hM)

theorem exists_getChunkTime {vmaf : VmafJson} {q : ℕ} (hq : q < vmaf.tracks.length)
    (hM : 1 ≤ vmaf.segments - 1) (i : ℤ) :
    ∃ x, getChunkTime (exportConfig vmaf) q i = some x := by
  simp only [getChunkTime, getVideoChunks_exportConfig, Option.bind_eq_bind, Option.bind_some]
  split
  · exact ⟨_, rfl⟩
  · set j : ℤ := if i = ((vmaf.segments - 1 : ℕ) : ℤ) then i - 1 else i
    obtain ⟨t1, h1⟩ := exists_getField_quality VideoInfo.startTime hq hM j
    obtain ⟨t2, h2⟩ := exists_getField_quality VideoInfo.startTime hq hM (j + 1)
    rw [getStartTime, getStartTime, h1, h2]
    exact ⟨_, rfl⟩

/-- Python reads entry `i - 1` for segment `i`. -/
theorem getField_exportConfig {α : Type} [Zero α] (field : VideoInfo → α) (vmaf : VmafJson)
    {t : ℤ × List VideoInfo} (ht : t ∈ vmaf.tracks) {i : ℕ} (h1 : 1 ≤ i)
    (hi : i ≤ vmaf.segments - 1) :
    getField field (exportConfig vmaf) (some t.1) i = t.2.dropLast[i - 1]?.map field := by
  have hinside : ¬(((vmaf.segments - 1 : ℕ) : ℤ) < i ∨ (i : ℤ) < 0) := by omega
  have hsub : subscript t.2.dropLast ((i : ℤ) - 1) = t.2.dropLast[i - 1]? := by
    rw [subscript, if_pos (by omega)]
    congr 1
    omega
  simp only [getField, getVideoChunks_exportConfig, (getJson_exportConfig vmaf).2 t ht,
    Option.bind_eq_bind, Option.bind_some, if_neg hinside, hsub]
  cases t.2.dropLast[i - 1]? <;> rfl

/-- For segment `i` the Python side reads entry `i - 1` of the track with the `q`-th lowest
bitrate. -/
theorem entry_exportConfig (vmaf : VmafJson) {q : ℕ} {t : ℤ × List VideoInfo}
    (ht : vmaf.byBitRate[q]? = some t) {i : ℕ} (h1 : 1 ≤ i) (hi : i ≤ vmaf.segments - 1) :
    ∃ e, t.2[i - 1]? = some e ∧ getVideoBitRate (exportConfig vmaf) q = some t.1 ∧
      getChunkSize (exportConfig vmaf) q i = some e.size ∧
      getVmaf (exportConfig vmaf) i t.1 = some e.vmaf ∧
      getStartTime (exportConfig vmaf) q i = some e.startTime := by
  have hmem : t ∈ vmaf.tracks := mem_sortOn.mp (List.mem_of_getElem? ht)
  have hlen : t.2.length = vmaf.segments := vmaf.equallyLong t hmem
  have hbitrate : getVideoBitRate (exportConfig vmaf) q = some t.1 := by
    rw [getVideoBitRate_exportConfig, ht, Option.map_some]
  obtain ⟨e, he⟩ : ∃ e, t.2[i - 1]? = some e := ⟨_, List.getElem?_eq_getElem (by omega)⟩
  have hread {α : Type} [Zero α] (field : VideoInfo → α) :
      getField field (exportConfig vmaf) (some t.1) i = some (field e) := by
    rw [getField_exportConfig field vmaf hmem h1 hi, List.getElem?_dropLast, hlen,
      if_pos (by omega), he, Option.map_some]
  refine ⟨e, he, hbitrate, ?_, hread _, ?_⟩
  · rw [getChunkSize, hbitrate, hread]
  · rw [getStartTime, hbitrate, hread]

/-! ## When the two sides agree -/

/-- **Agreement about a segment.** For segment `i` the C++ side reads entry `i` of track `q`
of the file, the Python side entry `i - 1` of the track with the `q`-th lowest bitrate. They
agree exactly where those two entries exist and are the same. -/
theorem same_metadata_iff (vmaf : VmafJson) (q : ℕ) (hq : q < vmaf.tracks.length) (i : ℕ)
    (h1 : 1 ≤ i) (hi : i ≤ vmaf.segments - 1) :
    SameMetadata (exportConfig vmaf) q i ↔
      i < vmaf.segments - 1 ∧ ∃ t t', vmaf.tracks[q]? = some t ∧ vmaf.byBitRate[q]? = some t' ∧
        t.2[i]? = t'.2[i - 1]? := by
  obtain ⟨t, ht⟩ : ∃ t, vmaf.tracks[q]? = some t := ⟨_, List.getElem?_eq_getElem hq⟩
  obtain ⟨t', -, ht'⟩ := exists_byBitRate hq
  have hcpp := segmentInfo_exportConfig vmaf ht i
  obtain ⟨e, he, hbitrate, hsize, hvmaf, hstart⟩ := entry_exportConfig vmaf ht' h1 hi
  constructor
  · rintro ⟨entry, bitrate, hentry, hb, hsize', hvmaf', hstart'⟩
    rw [hbitrate, Option.some.injEq] at hb
    rw [hsize, Option.some.injEq] at hsize'
    rw [← hb, hvmaf, Option.some.injEq] at hvmaf'
    rw [hstart, Option.some.injEq] at hstart'
    -- an entry is its three fields
    have hsame : e = entry := by
      cases e
      cases entry
      rw [VideoInfo.mk.injEq]
      exact ⟨hstart', hvmaf', hsize'⟩
    rw [hcpp] at hentry
    split at hentry
    · next hlt => exact ⟨hlt, t, t', ht, ht', by rw [hentry, he, hsame]⟩
    · cases hentry
  · rintro ⟨hlt, u, u', hu, hu', hsame⟩
    rw [ht, Option.some.injEq] at hu
    rw [ht', Option.some.injEq] at hu'
    refine ⟨e, t'.1, ?_, hbitrate, hsize, hvmaf, hstart⟩
    rw [hcpp, if_pos hlt, hu, hsame, ← hu', he]

/-- Two tracks of a video with four segments, the second of which is cut like the first. -/
def stillOpening : VmafJson where
  tracks := [(300, [⟨0, 90, 1000⟩, ⟨0, 90, 1000⟩, ⟨8, 70, 1500⟩, ⟨12, 80, 1200⟩]),
    (750, [⟨0, 95, 2500⟩, ⟨4, 95, 2600⟩, ⟨8, 85, 4000⟩, ⟨12, 90, 3000⟩])]
  nonempty := by decide
  distinct := by decide
  segments := 4
  equallyLong := by decide

/-- Where a segment repeats the one before, nobody notices. -/
theorem same_metadata_repeated : SameMetadata (exportConfig stillOpening) 0 1 := by
  have hsorted : stillOpening.byBitRate = stillOpening.tracks := by decide
  refine (same_metadata_iff stillOpening 0 (by decide) 1 (by decide) (by decide)).mpr ?_
  rw [hsorted]
  exact ⟨by decide, _, _, rfl, rfl, rfl⟩

/-- For segment 2 of the lower quality the C++ side reads what is recorded of segment 3. -/
theorem metadata_shifted :
    segmentInfo (exportConfig stillOpening) 0 2 = some ⟨8, 70, 1500⟩ ∧
      getChunkSize (exportConfig stillOpening) 0 2 = some 1000 ∧
      getVmaf (exportConfig stillOpening) 2 300 = some 90 ∧
      getStartTime (exportConfig stillOpening) 0 2 = some 0 ∧
      ¬SameMetadata (exportConfig stillOpening) 0 2 := by
  have hcpp : segmentInfo (exportConfig stillOpening) 0 2 = some ⟨8, 70, 1500⟩ := by
    rw [segmentInfo, segments_exportConfig]
    rfl
  have hsize : getChunkSize (exportConfig stillOpening) 0 2 = some 1000 := by decide
  refine ⟨hcpp, hsize, by decide, by decide, ?_⟩
  rintro ⟨entry, bitrate, hentry, -, hsame, -, -⟩
  rw [hcpp, Option.some.injEq] at hentry
  rw [← hentry, show ((2 : ℕ) : ℤ) = 2 from rfl, hsize] at hsame
  cases hsame

end Video
end LiveStream
