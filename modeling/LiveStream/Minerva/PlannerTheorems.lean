import LiveStream.Minerva.Planner

/-!
# When Minerva's planner is optimal

On a video with equally long tracks, `get_best_rate` finds a sequence with the best reward only
if some reward is positive, since its running maximum starts at 0. The buffer it simulates grows
by the duration of the next segment or by that of the last one, depending on the number of
tracks: with more tracks than segments that is a read past the end, and with fewer tracks the
wrong duration.

* `getBestRate_isSome_iff`, when all reads are inside the vectors;
* `getBestRate_of_pos` and `getBestRate_of_nonpos`, what is returned;
* `play_congr`, a sequence depends on the durations of all but its last segment;
* `getBestRate_optimal_iff`, when that is an optimum for the true durations.
-/

namespace LiveStream
namespace Minerva

open Lib MinervaConstants
open Abr (Tables Ladder)

variable {v : Ladder}

/-! ## Reads -/

section Reads

variable (v)

/-- The duration the code uses. -/
def codeDuration (quality index : ℤ) : ℚ :=
  if index + 1 < v.segments.length then
    (v.info quality (index + 1)).startTime - (v.info quality index).startTime
  else (v.info quality index).startTime - (v.info quality (index - 1)).startTime

/-- The duration of a segment that has a successor. -/
def trueDuration (quality index : ℤ) : ℚ :=
  (v.info quality (index + 1)).startTime - (v.info quality index).startTime

/-- What is read for a segment, with given durations. -/
def chunkOf (duration : ℤ → ℤ → ℚ) (lastQuality quality index : ℤ) : Chunk where
  size := (v.info quality index).size
  duration := duration quality index
  bitrate := v.rate quality
  lastBitrate := v.rate lastQuality
  vmaf := (v.info quality index).vmaf
  lastVmaf := some (v.info lastQuality (index - 1)).vmaf

/-- The segments of a sequence, cut at the end of the video. -/
def chunksOf (duration : ℤ → ℤ → ℚ) : ℤ → List ℤ → ℤ → List Chunk
  | _, [], _ => []
  | lastQuality, quality :: combo, index =>
    if (v.length : ℤ) ≤ index then []
    else chunkOf v duration lastQuality quality index ::
      chunksOf duration quality combo (index + 1)

end Reads

/-- The duration of a segment is read inside its track. -/
def DurationInBounds (v : Ladder) (index : ℤ) : Prop :=
  index + 1 < v.segments.length → index + 1 < v.length

theorem readDuration_eq {quality index : ℤ} (hq : v.IsTrack quality) (h1 : 1 ≤ index)
    (hL : index < v.length) (hbound : DurationInBounds v index) :
    readDuration v.toTables quality index = some (codeDuration v quality index) := by
  have hinfo := Ladder.infoAt_eq hq (by omega) hL
  rw [readDuration, hinfo, Option.bind_eq_bind, Option.bind_some, codeDuration]
  split
  · next hnext =>
    rw [Ladder.infoAt_eq hq (by omega) (hbound hnext)]
    rfl
  · rw [Ladder.infoAt_eq hq (by omega) (by omega)]
    rfl

theorem durationInBounds_of_read {quality index : ℤ} {d : ℚ}
    (h : readDuration v.toTables quality index = some d) : DurationInBounds v index := by
  intro hnext
  rw [readDuration, Option.bind_eq_bind, Option.bind_eq_some_iff] at h
  obtain ⟨info, -, h⟩ := h
  rw [if_pos hnext, Option.bind_eq_some_iff] at h
  obtain ⟨next, hread, -⟩ := h
  exact (Ladder.isTrack_of_infoAt hread).2.2

theorem readChunk_eq {lastQuality quality index : ℤ} (hlast : v.IsTrack lastQuality)
    (hq : v.IsTrack quality) (h1 : 1 ≤ index) (hL : index < v.length)
    (hbound : DurationInBounds v index) :
    readChunk v.toTables lastQuality quality index =
      some (chunkOf v (codeDuration v) lastQuality quality index) := by
  have hne : lastQuality ≠ -1 := by
    have := hlast.1
    omega
  have hvmaf : readLastVmaf v.toTables index lastQuality =
      some (some (v.info lastQuality (index - 1)).vmaf) := by
    rw [readLastVmaf, if_neg hne, Ladder.infoAt_eq hlast (by omega) (by omega)]
    rfl
  rw [readChunk, Ladder.infoAt_eq hq (by omega) hL, readDuration_eq hq h1 hL hbound,
    Ladder.rateAt_eq hq, Ladder.rateAt_eq hlast, hvmaf]
  rfl

theorem of_readChunk {lastQuality quality index : ℤ} {c : Chunk}
    (h : readChunk v.toTables lastQuality quality index = some c) :
    v.IsTrack lastQuality ∧ DurationInBounds v index := by
  simp only [readChunk, Option.bind_eq_bind, Option.bind_eq_some_iff] at h
  obtain ⟨info, -, d, hduration, rate, -, lastRate, hrate, lastVmaf, hvmaf, -⟩ := h
  refine ⟨?_, durationInBounds_of_read hduration⟩
  -- the bitrate of track -1 is not there either
  have hne : lastQuality ≠ -1 := by
    have := (lt_of_checkedGet hrate).1
    omega
  rw [readLastVmaf, if_neg hne, Option.map_eq_some_iff] at hvmaf
  obtain ⟨last, hread, -⟩ := hvmaf
  exact (Ladder.isTrack_of_infoAt hread).1

/-- A sequence that reaches the end of the video is read inside its tracks if there are no more
tracks than segments. -/
def SequenceInBounds (v : Ladder) (index : ℤ) (size : ℕ) : Prop :=
  (v.length : ℤ) ≤ index + size → v.segments.length ≤ v.length

theorem readChunks_eq {lastQuality index : ℤ} {combo : List ℤ} (hlast : v.IsTrack lastQuality)
    (hcombo : ∀ q ∈ combo, v.IsTrack q) (h1 : 1 ≤ index)
    (hbound : SequenceInBounds v index combo.length) :
    readChunks v.toTables lastQuality combo index =
      some (chunksOf v (codeDuration v) lastQuality combo index) := by
  induction combo generalizing lastQuality index with
  | nil => rfl
  | cons quality combo ih =>
    rw [List.forall_mem_cons] at hcombo
    rw [readChunks, chunksOf, Ladder.length_firstTrack]
    by_cases hend : (v.length : ℤ) ≤ index
    · rw [if_pos hend, if_pos hend]
    · have hduration : DurationInBounds v index := by
        intro hnext
        by_contra hlast'
        have := hbound (by rw [List.length_cons]; push_cast; omega)
        omega
      have hrest : SequenceInBounds v (index + 1) combo.length := by
        intro hle
        exact hbound (by rw [List.length_cons]; push_cast; omega)
      rw [if_neg hend, if_neg hend, readChunk_eq hlast hcombo.1 h1 (by omega) hduration,
        ih hcombo.1 hcombo.2 (by omega) hrest]
      rfl

theorem of_readChunks {lastQuality index : ℤ} {combo : List ℤ} {cs : List Chunk}
    (hne : combo ≠ []) (hL : index < v.length)
    (h : readChunks v.toTables lastQuality combo index = some cs) :
    v.IsTrack lastQuality ∧ SequenceInBounds v index combo.length := by
  induction combo generalizing lastQuality index cs with
  | nil => exact absurd rfl hne
  | cons quality combo ih =>
    rw [readChunks, Ladder.length_firstTrack, if_neg (by omega), Option.bind_eq_bind,
      Option.bind_eq_some_iff] at h
    obtain ⟨c, hchunk, h⟩ := h
    rw [Option.bind_eq_bind, Option.bind_eq_some_iff] at h
    obtain ⟨cs', hrest, -⟩ := h
    obtain ⟨hlast, hduration⟩ := of_readChunk hchunk
    refine ⟨hlast, ?_⟩
    intro hle
    rw [List.length_cons] at hle
    push_cast at hle
    by_cases hend : (v.length : ℤ) ≤ index + 1
    · -- the last segment: its successor is not read
      have hnext : ¬index + 1 < v.segments.length := fun hlt => by
        have := hduration hlt
        omega
      omega
    · have hne' : combo ≠ [] := by
        rintro rfl
        rw [List.length_nil] at hle
        omega
      exact (ih hne' (by omega) hrest).2 (by omega)

/-! ## The best sequence -/

/-- The sequences of five tracks. -/
def Sequences (v : Tables) : Set (List ℤ) :=
  {combo | combo.length = horizon ∧ ∀ q ∈ combo, 0 ≤ q ∧ q < v.segments.length}

theorem mem_sequences {v : Tables} {combo : List ℤ} :
    combo ∈ Sequences v ↔ combo ∈ cartesian horizon v.segments.length :=
  mem_words_letters.symm

theorem cartesian_ne_nil (v : Tables) : cartesian horizon v.segments.length ≠ [] := by
  apply words_ne_nil
  have hpos := List.length_pos_iff.mpr v.nonempty
  exact List.ne_nil_of_mem (mem_letters.mpr ⟨le_rfl, Int.natCast_pos.mpr hpos⟩)

/-- What the inner loop finds for a sequence it can read. -/
def simulated (v : Tables) (index lastQuality : ℤ) (buffer downloadRate : ℚ) (combo : List ℤ) :
    Outcome :=
  (simulate v index lastQuality buffer downloadRate combo).getD (play downloadRate buffer [])

/-- The first of the sequences with the greatest reward. -/
def chosenSequence (v : Tables) (index lastQuality : ℤ) (buffer downloadRate : ℚ) :
    Option (List ℤ) :=
  (cartesian horizon v.segments.length).argmax fun combo =>
    (simulated v index lastQuality buffer downloadRate combo).reward

section Best

variable {v : Tables} {index lastQuality : ℤ} {buffer downloadRate : ℚ} {sim : List ℤ → Outcome}

/-- The planner is the search from a reward of 0. -/
theorem getBestRate_eq (v : Tables) (index lastQuality : ℤ) (buffer downloadRate : ℚ) :
    getBestRate v index lastQuality buffer downloadRate =
      (searchM (simulate v index lastQuality buffer downloadRate) Outcome.reward choiceOf
        (0, ⟨0, some 0, 0⟩) (cartesian horizon v.segments.length)).map Prod.snd := by
  rw [Option.map_eq_bind]
  rfl

/-- If the planner returns, it has played all sequences. -/
theorem simulate_of_getBestRate {c : Choice}
    (h : getBestRate v index lastQuality buffer downloadRate = some c) :
    ∀ combo ∈ Sequences v, simulate v index lastQuality buffer downloadRate combo =
      some (simulated v index lastQuality buffer downloadRate combo) := by
  rw [getBestRate_eq, Option.map_eq_some_iff] at h
  obtain ⟨best, hloop, -⟩ := h
  intro combo hcombo
  have hsome := isSome_of_searchM hloop combo (mem_sequences.mp hcombo)
  obtain ⟨o, ho⟩ := Option.isSome_iff_exists.mp hsome
  rw [simulated, ho, Option.getD_some]

/-- With a positive reward, what is returned is that of the first of the best sequences. -/
theorem getBestRate_of_pos
    (hsim : ∀ combo ∈ Sequences v,
      simulate v index lastQuality buffer downloadRate combo = some (sim combo))
    (hpos : ∃ combo ∈ Sequences v, 0 < (sim combo).reward) :
    ∃ combo ∈ Sequences v,
      (cartesian horizon v.segments.length).argmax (fun combo => (sim combo).reward) = some combo ∧
      (∀ other ∈ Sequences v, (sim other).reward ≤ (sim combo).reward) ∧
      0 < (sim combo).reward ∧
      getBestRate v index lastQuality buffer downloadRate = some (choiceOf combo (sim combo)) := by
  simp only [mem_sequences] at hsim hpos ⊢
  obtain ⟨combo, hcombo, hfirst, hbest, hlt, hloop⟩ :=
    searchM_of_lt choiceOf (⟨0, some 0, 0⟩ : Choice) hsim hpos
  refine ⟨combo, hcombo, hfirst, hbest, hlt, ?_⟩
  rw [getBestRate_eq, hloop]
  rfl

/-- Without one, it is what the variables started with. -/
theorem getBestRate_of_nonpos
    (hsim : ∀ combo ∈ Sequences v,
      simulate v index lastQuality buffer downloadRate combo = some (sim combo))
    (hneg : ∀ combo ∈ Sequences v, (sim combo).reward ≤ 0) :
    getBestRate v index lastQuality buffer downloadRate = some ⟨0, some 0, 0⟩ := by
  simp only [mem_sequences] at hsim hneg
  rw [getBestRate_eq, searchM_of_le choiceOf _ hsim hneg]
  rfl

end Best

/-! ## Equally long tracks -/

section Ladder

variable {index lastQuality : ℤ} {buffer downloadRate : ℚ}

/-- What the loop finds for a sequence, with given durations. -/
def outcomeOf (v : Ladder) (duration : ℤ → ℤ → ℚ) (index lastQuality : ℤ)
    (buffer downloadRate : ℚ) (combo : List ℤ) : Outcome :=
  play downloadRate buffer (chunksOf v duration lastQuality combo index)

theorem simulate_eq (h1 : 1 ≤ index) (hlast : v.IsTrack lastQuality)
    (hbound : SequenceInBounds v index horizon) {combo : List ℤ}
    (hcombo : combo ∈ Sequences v.toTables) :
    simulate v.toTables index lastQuality buffer downloadRate combo =
      some (outcomeOf v (codeDuration v) index lastQuality buffer downloadRate combo) := by
  rw [simulate, readChunks_eq hlast hcombo.2 h1 (hcombo.1 ▸ hbound)]
  rfl

theorem getBestRate_isSome_iff (h1 : 1 ≤ index) (hL : index < v.length) :
    (getBestRate v.toTables index lastQuality buffer downloadRate).isSome ↔
      v.IsTrack lastQuality ∧ SequenceInBounds v index horizon := by
  constructor
  · intro h
    obtain ⟨c, hc⟩ := Option.isSome_iff_exists.mp h
    obtain ⟨combo, hcombo⟩ := List.exists_mem_of_ne_nil _ (cartesian_ne_nil v.toTables)
    have hsize : combo.length = horizon := (mem_sequences.mpr hcombo).1
    have hread := simulate_of_getBestRate hc combo (mem_sequences.mpr hcombo)
    rw [simulate, Option.map_eq_some_iff] at hread
    obtain ⟨cs, hcs, -⟩ := hread
    rw [← hsize]
    refine of_readChunks ?_ hL hcs
    rintro rfl
    exact absurd hsize (by decide)
  · rintro ⟨hlast, hbound⟩
    rw [getBestRate_eq, searchM_eq choiceOf fun combo hcombo =>
      simulate_eq h1 hlast hbound (mem_sequences.mpr hcombo)]
    rfl

/-- A sequence depends on the durations of all but its last segment. -/
theorem play_congr {d d' : ℤ → ℤ → ℚ} {combo : List ℤ} {i last : ℤ}
    (h : ∀ q ∈ combo, ∀ j, i ≤ j → j + 1 < v.length → j + 1 < i + combo.length → d q j = d' q j)
    (s : Simulation) :
    ((chunksOf v d last combo i).foldl (Simulation.advance downloadRate) s).toOutcome =
      ((chunksOf v d' last combo i).foldl (Simulation.advance downloadRate) s).toOutcome := by
  induction combo generalizing i last s with
  | nil => rfl
  | cons q combo ih =>
    rw [chunksOf, chunksOf]
    by_cases hend : (v.length : ℤ) ≤ i
    · rw [if_pos hend, if_pos hend]
    · rw [if_neg hend, if_neg hend, List.foldl_cons, List.foldl_cons]
      by_cases hlast : combo = [] ∨ (v.length : ℤ) ≤ i + 1
      · -- nothing is played from the buffer this segment leaves
        have hnil : ∀ d, chunksOf v d q combo (i + 1) = [] := by
          intro d
          cases combo with
          | nil => rfl
          | cons q' combo =>
            rcases hlast with hnil | hle
            · exact absurd hnil (List.cons_ne_nil _ _)
            · rw [chunksOf, if_pos hle]
        rw [hnil, hnil]
        rfl
      · rw [not_or, not_le] at hlast
        have hpos := List.length_pos_iff.mpr hlast.1
        have hsame : d q i = d' q i := by
          apply h q (List.mem_cons_self ..) i le_rfl hlast.2
          rw [List.length_cons]
          push_cast
          omega
        have hchunk : chunkOf v d last q i = chunkOf v d' last q i := by
          rw [chunkOf, chunkOf, hsame]
        rw [hchunk]
        apply ih
        intro q' hq' j hij hjL hj
        apply h q' (List.mem_cons_of_mem _ hq') j (by omega) hjL
        rw [List.length_cons]
        push_cast
        omega

/-- The segments whose duration matters have the durations the code uses. -/
def DurationsAgree (v : Ladder) (index : ℤ) : Prop :=
  ∀ q, v.IsTrack q → ∀ i, index ≤ i → i + 1 < v.length → i + 1 < index + horizon →
    v.segments.length ≤ i + 1 → codeDuration v q i = trueDuration v q i

theorem outcomeOf_code (hagree : DurationsAgree v index) {combo : List ℤ}
    (hcombo : combo ∈ Sequences v.toTables) :
    outcomeOf v (codeDuration v) index lastQuality buffer downloadRate combo =
      outcomeOf v (trueDuration v) index lastQuality buffer downloadRate combo := by
  apply play_congr
  intro q hq i hi hL hsize
  rw [hcombo.1] at hsize
  by_cases hnext : i + 1 < v.segments.length
  · exact if_pos hnext
  · exact hagree q (hcombo.2 q hq) i hi hL hsize (not_lt.mp hnext)

/-- What is returned belongs to a sequence whose reward is the greatest, with the true durations. -/
def IsOptimum (v : Ladder) (index lastQuality : ℤ) (buffer downloadRate : ℚ) (c : Choice) : Prop :=
  ∃ combo ∈ Sequences v.toTables,
    c = choiceOf combo (outcomeOf v (trueDuration v) index lastQuality buffer downloadRate combo) ∧
    ∀ other ∈ Sequences v.toTables,
      (outcomeOf v (trueDuration v) index lastQuality buffer downloadRate other).reward ≤
        (outcomeOf v (trueDuration v) index lastQuality buffer downloadRate combo).reward

/-- The planner returns an optimum. -/
def FindsOptimum (v : Ladder) (index lastQuality : ℤ) (buffer downloadRate : ℚ) : Prop :=
  ∃ c, getBestRate v.toTables index lastQuality buffer downloadRate = some c ∧
    IsOptimum v index lastQuality buffer downloadRate c

/-- The planner finds no optimum if a read is out of bounds. With the durations of the code it
finds one exactly if some reward is positive, or the zeros it starts with are those of an
optimum. -/
theorem getBestRate_optimal_iff (h1 : 1 ≤ index) (hL : index < v.length)
    (hlast : v.IsTrack lastQuality) (buffer downloadRate : ℚ) :
    (FindsOptimum v index lastQuality buffer downloadRate → SequenceInBounds v index horizon) ∧
    (SequenceInBounds v index horizon → DurationsAgree v index →
      (FindsOptimum v index lastQuality buffer downloadRate ↔
        (∃ combo ∈ Sequences v.toTables,
          0 < (outcomeOf v (trueDuration v) index lastQuality buffer downloadRate combo).reward) ∨
        IsOptimum v index lastQuality buffer downloadRate ⟨0, some 0, 0⟩)) := by
  constructor
  · rintro ⟨c, hc, -⟩
    exact ((getBestRate_isSome_iff h1 hL).mp (by rw [hc]; rfl)).2
  · intro hbound hagree
    have hsim : ∀ combo ∈ Sequences v.toTables,
        simulate v.toTables index lastQuality buffer downloadRate combo =
          some (outcomeOf v (trueDuration v) index lastQuality buffer downloadRate combo) := by
      intro combo hcombo
      rw [simulate_eq h1 hlast hbound hcombo, outcomeOf_code hagree hcombo]
    by_cases hpos : ∃ combo ∈ Sequences v.toTables,
        0 < (outcomeOf v (trueDuration v) index lastQuality buffer downloadRate combo).reward
    · refine iff_of_true ?_ (Or.inl hpos)
      obtain ⟨combo, hcombo, -, hbest, -, hc⟩ := getBestRate_of_pos hsim hpos
      exact ⟨_, hc, combo, hcombo, rfl, hbest⟩
    · have hneg : ∀ combo ∈ Sequences v.toTables,
          (outcomeOf v (trueDuration v) index lastQuality buffer downloadRate combo).reward ≤ 0 :=
        fun combo hcombo => not_lt.mp fun hlt => hpos ⟨combo, hcombo, hlt⟩
      have hzeros := getBestRate_of_nonpos hsim hneg
      constructor
      · rintro ⟨c, hc, hopt⟩
        rw [hzeros, Option.some.injEq] at hc
        exact Or.inr (hc ▸ hopt)
      · intro h
        exact ⟨_, hzeros, h.resolve_left hpos⟩

end Ladder

/-! ## Two videos -/

/-- A track of segments of one size and quality. -/
def evenTrack (starts : List ℚ) (vmaf : ℚ) (size : ℕ) : List Video.VideoInfo :=
  starts.map fun start => ⟨start, vmaf, size⟩

/-- Two tracks of 1 and 2 Mbps, in segments of four seconds. -/
def steadyVideo : Ladder where
  segments :=
    [evenTrack [0, 4, 8, 12, 16, 20] 40 500000, evenTrack [0, 4, 8, 12, 16, 20] 80 1000000]
  bitrateArray := [1000, 2000]
  nonempty := by simp
  rates := by simp
  length := 6
  equallyLong := by simp [evenTrack]
  rateEach := by simp

theorem durationsAgree_steadyVideo : DurationsAgree steadyVideo 1 := by
  intro q hq i hi hL hsize hn
  have hq0 := hq.1
  have hq1 : q < 2 := hq.2
  have hi5 : i < 5 := by
    have : i + 1 < 6 := hL
    omega
  interval_cases q <;> interval_cases i <;> decide +kernel

theorem getBestRate_steadyVideo : FindsOptimum steadyVideo 1 0 10 4 := by
  have hoptimal := @getBestRate_optimal_iff steadyVideo 1 0 (by decide) (by decide)
    ⟨by decide, by decide⟩ 10 4
  refine (hoptimal.2 (fun _ => by decide) durationsAgree_steadyVideo).mpr (Or.inl ?_)
  exact ⟨[0, 0, 0, 0, 0], ⟨by decide, by decide⟩, by decide +kernel⟩

/-- One track, with a long segment before the last. -/
def unevenVideo : Ladder where
  segments := [evenTrack [0, 4, 8, 12, 16, 26] 60 625000]
  bitrateArray := [9000]
  nonempty := by simp
  rates := by simp
  length := 6
  equallyLong := by simp [evenTrack]
  rateEach := by simp

/-- At 0.1 Mbps every sequence stalls and has a negative reward, and the planner returns zeros.
With one track the planner overlooks the long segment, and predicts 9 seconds of stall, not 8. -/
theorem getBestRate_misses_optimum :
    (getBestRate steadyVideo.toTables 1 0 10 (1 / 10) = some ⟨0, some 0, 0⟩ ∧
      ¬IsOptimum steadyVideo 1 0 10 (1 / 10) ⟨0, some 0, 0⟩) ∧
    (getBestRate unevenVideo.toTables 1 0 0 1).map Choice.rebuffer = some (some 9) ∧
      ∀ c, IsOptimum unevenVideo 1 0 0 1 c → c.rebuffer = some 8 := by
  refine ⟨⟨by decide +kernel, ?_⟩, by decide +kernel, ?_⟩
  · rintro ⟨combo, hcombo, hc, -⟩
    have hstall : ∀ combo ∈ cartesian horizon 2, (⟨0, some 0, 0⟩ : Choice) ≠ choiceOf combo
        (outcomeOf steadyVideo (trueDuration steadyVideo) 1 0 10 (1 / 10) combo) := by
      decide +kernel
    exact hstall combo (mem_sequences.mp hcombo) hc
  · rintro c ⟨combo, hcombo, rfl, -⟩
    have hstall : ∀ combo ∈ cartesian horizon 1, (choiceOf combo
        (outcomeOf unevenVideo (trueDuration unevenVideo) 1 0 0 1 combo)).rebuffer = some 8 := by
      decide +kernel
    exact hstall combo (mem_sequences.mp hcombo)

end Minerva
end LiveStream
