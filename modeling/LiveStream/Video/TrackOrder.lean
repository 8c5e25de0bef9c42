import LiveStream.Video.ConfigTheorems

/-!
# Tracks by number and bitrates by size

The constructor of `SegmentProgressAbr` fills two tables that the algorithms then read with
one subscript: `segments`, by the number in the tracks' resource, and `bitrate_array`, in
increasing order. Nothing checks that the two orders are one.

* `NumberedConfig`, a configuration whose tracks are numbered in any order;
* `exists_byNumber`, its tracks in the order of their numbers;
* `tables_agree_iff`, when entry `k` of both tables is about the same track.
-/

namespace LiveStream
namespace Video

open Lib

/-- `bitrate_array` as the constructor of `SegmentProgressAbr` fills it. -/
def bitrateArray (config : DashBackendConfig) : List ℤ :=
  sortOn id (config.videoConfigs.map VideoConfig.quality)

/-- The resource of track `i`. -/
def resourceName (i : ℕ) : String := "/video" ++ toString i

/-- A configuration that has the tracks `/video0`, `/video1`, … once each, with different
qualities. -/
structure NumberedConfig extends DashBackendConfig where
  numbered : (videoConfigs.map VideoConfig.resource).Perm
    ((List.range videoConfigs.length).map resourceName)
  distinct : (videoConfigs.map VideoConfig.quality).Nodup

namespace NumberedConfig

variable (config : NumberedConfig)

/-- Both tables have an entry for each track, and entry `k` of both is about one track. -/
def TablesAgree : Prop :=
  (segments config.toDashBackendConfig).length = config.videoConfigs.length
    ∧ (bitrateArray config.toDashBackendConfig).length = config.videoConfigs.length
    ∧ ∀ k < config.videoConfigs.length, ∃ c ∈ config.videoConfigs,
      (bitrateArray config.toDashBackendConfig)[k]? = some c.quality
        ∧ (segments config.toDashBackendConfig)[k]? = some c.videoInfo

/-- How many tracks have a lower quality. -/
def rank (c : VideoConfig) : ℕ := config.videoConfigs.countP fun d => d.quality < c.quality

/-- The qualities ascend with the numbers. -/
def Ascending : Prop :=
  ∀ c ∈ config.videoConfigs, ∀ d ∈ config.videoConfigs, ∀ i j, c.resource = resourceName i →
    d.resource = resourceName j → i < j → c.quality < d.quality

/-- Every track is found under the number that is its rank, or has there a track with the same
list of segments in its place. -/
def InPlace : Prop :=
  ∀ c ∈ config.videoConfigs, ∀ d ∈ config.videoConfigs,
    c.resource = resourceName (config.rank d) → c.videoInfo = d.videoInfo

/-- The tracks in the order of their numbers. -/
theorem exists_byNumber : ∃ tracks : List VideoConfig, tracks.Perm config.videoConfigs ∧
    tracks.map VideoConfig.resource = (List.range config.videoConfigs.length).map resourceName := by
  have hnames : List.Forall₂ (fun name (c : VideoConfig) => c.resource = name)
      (config.videoConfigs.map VideoConfig.resource) config.videoConfigs :=
    List.forall₂_map_left_iff.mpr (List.forall₂_same.mpr fun _ _ => rfl)
  obtain ⟨tracks, htracks, hperm⟩ := List.perm_comp_forall₂ config.numbered.symm hnames
  refine ⟨tracks, hperm, ?_⟩
  rw [← List.forall₂_eq_eq_eq, List.forall₂_map_left_iff]
  exact htracks.flip

section ByNumber

variable {config} {tracks : List VideoConfig} (hperm : tracks.Perm config.videoConfigs)
  (hnumbers : tracks.map VideoConfig.resource
    = (List.range config.videoConfigs.length).map resourceName)
include hperm hnumbers

theorem resource_of_getElem? {k : ℕ} {c : VideoConfig} (hc : tracks[k]? = some c) :
    c.resource = resourceName k := by
  have hk : k < config.videoConfigs.length := by
    rw [← hperm.length_eq]
    exact (List.getElem?_eq_some_iff.mp hc).1
  have hget := congrArg (fun l => l[k]?) hnumbers
  simpa [hc, List.getElem?_range hk] using hget

/-- `segments` is made of the tracks in the order of their numbers. -/
theorem segments_eq : segments config.toDashBackendConfig = tracks.map VideoConfig.videoInfo := by
  have hdistinct : (tracks.map VideoConfig.resource).Nodup := by
    rw [hnumbers]
    exact List.nodup_range.map resource_injective
  have hpairs : ∀ p ∈ tracks.zipIdx, p.1.resource = resourceName p.2 := fun p hp =>
    resource_of_getElem? hperm hnumbers (List.mk_mem_zipIdx_iff_getElem?.mp hp)
  have hfilter : ∀ i, (config.videoConfigs.filter fun c => "/video" ++ toString i = c.resource)
      = (tracks.zipIdx.filter fun p => resourceName i = resourceName p.2).map Prod.fst := by
    intro i
    calc (config.videoConfigs.filter fun c => "/video" ++ toString i = c.resource)
        = tracks.filter fun c => resourceName i = c.resource :=
          (filter_eq_of_perm hperm hdistinct (resourceName i)).symm
      _ = (tracks.zipIdx.map Prod.fst).filter fun c => resourceName i = c.resource := by
          rw [List.zipIdx_map_fst]
      _ = (tracks.zipIdx.filter fun p => resourceName i = resourceName p.2).map Prod.fst := by
          rw [List.filter_map]
          apply congrArg
          apply List.filter_congr
          intro p hp
          simp only [Function.comp, hpairs p hp]
  conv_rhs => rw [← flatMap_filter_zipIdx resource_injective tracks]
  rw [List.map_flatMap, hperm.length_eq]
  unfold segments
  simp only [hfilter]
  rfl

end ByNumber

/-! ## The two orders -/

/-- The tracks in the order of `bitrate_array`. -/
def byQuality : List VideoConfig := sortOn VideoConfig.quality config.videoConfigs

theorem bitrateArray_eq :
    bitrateArray config.toDashBackendConfig = config.byQuality.map VideoConfig.quality :=
  (List.map_insertionSort _ _ VideoConfig.quality config.videoConfigs fun _ _ _ _ => Iff.rfl).symm

theorem byQuality_perm : config.byQuality.Perm config.videoConfigs := perm_sortOn _ _

theorem byQuality_strict : config.byQuality.Pairwise fun c d => c.quality < d.quality :=
  pairwise_lt_sortOn config.distinct

variable {config}

/-- The position of a track in the order of bitrates is its rank. -/
theorem rank_of_getElem? {k : ℕ} {c : VideoConfig} (hc : config.byQuality[k]? = some c) :
    config.rank c = k := by
  unfold rank
  rw [← config.byQuality_perm.countP_eq]
  exact countP_lt_of_getElem? config.byQuality_strict hc

theorem eq_of_quality_eq {c d : VideoConfig} (hc : c ∈ config.videoConfigs)
    (hd : d ∈ config.videoConfigs) (h : c.quality = d.quality) : c = d :=
  List.inj_on_of_nodup_map config.distinct hc hd h

section ByNumber

variable {tracks : List VideoConfig} (hperm : tracks.Perm config.videoConfigs)
  (hnumbers : tracks.map VideoConfig.resource
    = (List.range config.videoConfigs.length).map resourceName)
include hperm hnumbers

/-- The tables agree when both orders lead to the same lists of segments. -/
theorem tablesAgree_iff_map_eq : config.TablesAgree ↔
    tracks.map VideoConfig.videoInfo = config.byQuality.map VideoConfig.videoInfo := by
  have hlen : tracks.length = config.videoConfigs.length := hperm.length_eq
  have hlenQuality : config.byQuality.length = config.videoConfigs.length :=
    config.byQuality_perm.length_eq
  unfold TablesAgree
  rw [segments_eq hperm hnumbers, bitrateArray_eq, List.length_map, List.length_map]
  constructor
  · intro h
    apply List.ext_getElem?
    intro k
    by_cases hk : k < config.videoConfigs.length
    · obtain ⟨c, hc, hquality, hinfo⟩ := h.2.2 k hk
      have hd := List.getElem?_eq_getElem (l := config.byQuality) (by omega : k < _)
      have hsame : config.byQuality[k] = c := by
        apply eq_of_quality_eq (config.byQuality_perm.mem_iff.mp (List.mem_of_getElem? hd)) hc
        simpa [hd] using hquality
      rw [hinfo, List.getElem?_map, hd, hsame, Option.map_some]
    · rw [List.getElem?_eq_none (by simp; omega), List.getElem?_eq_none (by simp; omega)]
  · intro h
    refine ⟨hlen, hlenQuality, ?_⟩
    intro k hk
    have hd := List.getElem?_eq_getElem (l := config.byQuality) (by omega : k < _)
    refine ⟨config.byQuality[k], ?_, ?_, ?_⟩
    · exact config.byQuality_perm.mem_iff.mp (List.mem_of_getElem? hd)
    · rw [List.getElem?_map, hd, Option.map_some]
    · rw [h, List.getElem?_map, hd, Option.map_some]

theorem inPlace_iff_map_eq : config.InPlace ↔
    tracks.map VideoConfig.videoInfo = config.byQuality.map VideoConfig.videoInfo := by
  have hlen : tracks.length = config.byQuality.length :=
    (hperm.trans config.byQuality_perm.symm).length_eq
  constructor
  · intro h
    apply List.ext_getElem
    · simpa using hlen
    · intro k hk hk'
      rw [List.length_map] at hk hk'
      have hc := List.getElem?_eq_getElem hk
      have hd := List.getElem?_eq_getElem hk'
      rw [List.getElem_map, List.getElem_map]
      apply h _ (hperm.mem_iff.mp (List.mem_of_getElem? hc)) _
        (config.byQuality_perm.mem_iff.mp (List.mem_of_getElem? hd))
      rw [rank_of_getElem? hd]
      exact resource_of_getElem? hperm hnumbers hc
  · intro h c hc d hd hrank
    obtain ⟨i, hi⟩ := List.getElem?_of_mem (hperm.mem_iff.mpr hc)
    obtain ⟨j, hj⟩ := List.getElem?_of_mem (config.byQuality_perm.mem_iff.mpr hd)
    have hij : i = j := by
      apply resource_injective
      rw [rank_of_getElem? hj, resource_of_getElem? hperm hnumbers hi] at hrank
      exact hrank
    have hinfo := congrArg (fun l => l[i]?) h
    rw [← hij] at hj
    simpa [hi, hj] using hinfo

theorem ascending_iff_eq : config.Ascending ↔ tracks = config.byQuality := by
  have hresource {i : ℕ} {c : VideoConfig} (hc : tracks[i]? = some c) :=
    resource_of_getElem? hperm hnumbers hc
  constructor
  · intro h
    have hstrict : tracks.Pairwise fun c d => c.quality < d.quality := by
      rw [List.pairwise_iff_getElem]
      intro i j hi hj hij
      have hc := List.getElem?_eq_getElem hi
      have hd := List.getElem?_eq_getElem hj
      exact h _ (hperm.mem_iff.mp (List.mem_of_getElem? hc)) _
        (hperm.mem_iff.mp (List.mem_of_getElem? hd)) i j (hresource hc) (hresource hd) hij
    apply (hperm.trans config.byQuality_perm.symm).eq_of_pairwise _ hstrict config.byQuality_strict
    intro c d _ _ hcd hdc
    omega
  · intro h c hc d hd i j hi hj hij
    obtain ⟨i', hc'⟩ := List.getElem?_of_mem (hperm.mem_iff.mpr hc)
    obtain ⟨j', hd'⟩ := List.getElem?_of_mem (hperm.mem_iff.mpr hd)
    have hii : i = i' := resource_injective (hi.symm.trans (hresource hc'))
    have hjj : j = j' := resource_injective (hj.symm.trans (hresource hd'))
    subst hii hjj
    obtain ⟨hilt, rfl⟩ := List.getElem?_eq_some_iff.mp hc'
    obtain ⟨hjlt, rfl⟩ := List.getElem?_eq_some_iff.mp hd'
    exact List.pairwise_iff_getElem.mp (h ▸ config.byQuality_strict) i j hilt hjlt hij

end ByNumber

/-- **The two tables.** They agree exactly where every track is in the place of its rank, or
has a track with the same segments there. That is so if the qualities ascend with the
numbers, and where all lists of segments differ only then. -/
theorem tables_agree_iff (config : NumberedConfig) :
    (config.TablesAgree ↔ config.InPlace)
      ∧ (config.Ascending → config.TablesAgree)
      ∧ ((config.videoConfigs.map VideoConfig.videoInfo).Nodup →
        (config.TablesAgree ↔ config.Ascending)) := by
  obtain ⟨tracks, hperm, hnumbers⟩ := config.exists_byNumber
  rw [tablesAgree_iff_map_eq hperm hnumbers, inPlace_iff_map_eq hperm hnumbers,
    ascending_iff_eq hperm hnumbers]
  refine ⟨Iff.rfl, congrArg _, ?_⟩
  intro hinfos
  constructor
  · intro h
    apply List.ext_getElem
    · exact (hperm.trans config.byQuality_perm.symm).length_eq
    · intro k hk hk'
      apply List.inj_on_of_nodup_map hinfos (hperm.mem_iff.mp (List.getElem_mem hk))
        (config.byQuality_perm.mem_iff.mp (List.getElem_mem hk'))
      have hinfo := congrArg (fun l => l[k]?) h
      simpa [hk, hk'] using hinfo
  · exact congrArg _

/-- A file of `export.py`, whose qualities come in the order of `vmaf.json`, is numbered. -/
def ofExport (vmaf : VmafJson) : NumberedConfig where
  toDashBackendConfig := exportConfig vmaf
  numbered := by
    apply List.Perm.of_eq
    simp only [exportConfig, List.map_map, List.length_map, List.length_zipIdx]
    rw [List.range_eq_range', ← List.zipIdx_map_snd 0 vmaf.tracks, List.map_map]
    rfl
  distinct := by
    have hquality : (exportConfig vmaf).videoConfigs.map VideoConfig.quality
        = vmaf.tracks.map Prod.fst := by
      rw [← List.zipIdx_map_fst 0 vmaf.tracks]
      simp only [exportConfig, List.map_map]
      rfl
    rw [hquality]
    exact vmaf.distinct

/-- `vmaf.json` lists the higher quality first. -/
def descending : VmafJson where
  tracks := [(750, [⟨0, 95, 2500⟩, ⟨4, 95, 2600⟩]), (300, [⟨0, 90, 1000⟩, ⟨4, 90, 1100⟩])]
  nonempty := by decide
  distinct := by decide
  segments := 2
  equallyLong := by decide

/-- Entry 0 of `segments` is then the track of 750 kbps, and entry 0 of `bitrate_array` is 300. -/
theorem tables_disagree :
    segments (ofExport descending).toDashBackendConfig = [[⟨0, 95, 2500⟩], [⟨0, 90, 1000⟩]]
      ∧ bitrateArray (ofExport descending).toDashBackendConfig = [300, 750]
      ∧ (ofExport descending).videoConfigs.map (fun c => (c.quality, c.videoInfo))
        = [(750, [⟨0, 95, 2500⟩]), (300, [⟨0, 90, 1000⟩])]
      ∧ ¬(ofExport descending).TablesAgree := by
  have hsegments : segments (ofExport descending).toDashBackendConfig
      = [[⟨0, 95, 2500⟩], [⟨0, 90, 1000⟩]] := segments_exportConfig descending
  have hbitrates : bitrateArray (ofExport descending).toDashBackendConfig = [300, 750] := by decide
  have htracks : (ofExport descending).videoConfigs.map (fun c => (c.quality, c.videoInfo))
      = [(750, [⟨0, 95, 2500⟩]), (300, [⟨0, 90, 1000⟩])] := rfl
  refine ⟨hsegments, hbitrates, htracks, ?_⟩
  intro h
  obtain ⟨c, hc, hquality, hinfo⟩ := h.2.2 0 (by decide)
  have hmem := List.mem_map_of_mem (f := fun c : VideoConfig => (c.quality, c.videoInfo)) hc
  rw [htracks] at hmem
  rw [hbitrates] at hquality
  rw [hsegments] at hinfo
  simp only [List.getElem?_cons_zero, Option.some.injEq] at hquality hinfo
  simp [← hquality, ← hinfo] at hmem

end NumberedConfig
end Video
end LiveStream
