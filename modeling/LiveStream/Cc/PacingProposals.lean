import LiveStream.Lib.Run
import LiveStream.Lib.Tally

/-!
# Proposals for the pacing gain cycle

`BbrAdapter::BbrInterface`, the part with which the ABR algorithms choose the pacing gain cycle of
the sender. Proposals are collected until an update finds enough of them; then the one with the
most votes becomes the cycle. The votes are counted in a `std::map` whose keys are vectors, ordered
by a comparator of its own.

* `lessThan_iff`, the comparator is the lexicographic order, for vectors of any lengths;
* `leads_countVotes`, what the loop over the proposals finds;
* `proposals_after`, which proposals an update sees.
-/

namespace LiveStream
namespace Cc

open Lib

def minimumProposals : ℕ := 5

/-- The members these functions use. -/
structure BbrInterface where
  kPacingGainProposals : List (List ℚ)
  kPacingGain : List ℚ
  noAdaptation : Bool

namespace BbrInterface

/-- The constructor; `no_adaptation` is taken from the selector. -/
def init (noAdaptation : Bool) : BbrInterface :=
  ⟨[], [5 / 4, 3 / 4, 1, 1, 1, 1, 1, 1], noAdaptation⟩

def proposePacingGainCycle (s : BbrInterface) (gain : List ℚ) : BbrInterface :=
  if s.noAdaptation then s
  else { s with kPacingGainProposals := s.kPacingGainProposals ++ [gain] }

/-- The comparator of the map: a loop over the common positions, and then the sizes. -/
def lessThan : List ℚ → List ℚ → Bool
  | a :: as, b :: bs => if a < b then true else if b < a then false else lessThan as bs
  | as, bs => as.length < bs.length

/-- The variables of the loop over the proposals. -/
structure Count where
  votes : List (List ℚ × ℕ)
  mostVotes : ℕ
  bestProposal : List ℚ

def Count.add (c : Count) (proposal : List ℚ) : Count :=
  let votes := addVote lessThan c.votes proposal
  let count := (mapFind lessThan proposal votes).getD 0
  if c.mostVotes < count then ⟨votes, count, proposal⟩ else { c with votes := votes }

def countVotes (proposals : List (List ℚ)) : Count := run Count.add ⟨[], 0, []⟩ proposals

def updatePacingGainCycle (s : BbrInterface) : BbrInterface :=
  if s.noAdaptation then s
  else
    let bestProposal := (countVotes s.kPacingGainProposals).bestProposal
    if bestProposal ≠ [] ∧ minimumProposals ≤ s.kPacingGainProposals.length then
      { s with kPacingGain := bestProposal, kPacingGainProposals := [] }
    else s

/-! ## The comparator -/

theorem lessThan_iff (as bs : List ℚ) : lessThan as bs = true ↔ as < bs := by
  induction as generalizing bs with
  | nil =>
    cases bs with
    | nil => decide
    | cons b bs => simp [lessThan]
  | cons a as ih =>
    cases bs with
    | nil => simp [lessThan]
    | cons b bs =>
      rw [lessThan, List.cons_lt_cons_iff]
      rcases lt_trichotomy a b with hlt | heq | hgt
      · simp [hlt]
      · simp [heq, ih]
      · simp [hgt, hgt.not_gt, hgt.ne']

theorem comparator_lessThan : Comparator lessThan := comparator_of_lt lessThan_iff

/-! ## The loop -/

/-- What the loop knows about the proposals so far. -/
structure Counted (proposals : List (List ℚ)) (c : Count) : Prop where
  votes : Tallied lessThan proposals c.votes
  leads : (proposals = [] ∧ c.mostVotes = 0) ∨ Leads proposals c.mostVotes c.bestProposal

theorem Counted.le_most {proposals : List (List ℚ)} {c : Count} (h : Counted proposals c)
    (p : List ℚ) : proposals.count p ≤ c.mostVotes := by
  rcases h.leads with ⟨rfl, -⟩ | hleads
  · exact Nat.zero_le _
  · exact hleads.le_most p

/-- One more proposal: the votes count it, and the best is replaced only by one with more votes. -/
theorem Counted.add {proposals : List (List ℚ)} {c : Count} (h : Counted proposals c)
    (p : List ℚ) : Counted (proposals ++ [p]) (c.add p) := by
  have hvotes := tallied_vote comparator_lessThan h.votes p
  unfold Count.add
  dsimp only
  rw [hvotes.getD p]
  split
  · next hlt => exact ⟨hvotes, Or.inr (leads_vote_of_lt h.le_most hlt)⟩
  · next hle =>
    rcases h.leads with ⟨rfl, hzero⟩ | hleads
    · -- the first proposal has more votes than none
      rw [hzero, count_concat_self] at hle
      exact absurd (Nat.succ_pos _) hle
    · exact ⟨hvotes, Or.inr (leads_vote_of_le hleads (not_lt.mp hle))⟩

theorem counted_countVotes (proposals : List (List ℚ)) :
    Counted proposals (countVotes proposals) := by
  apply run_history (P := Counted)
  · exact ⟨tallied_nil, Or.inl ⟨rfl, rfl⟩⟩
  · intro proposals c p h
    exact h.add p

theorem leads_countVotes {proposals : List (List ℚ)} (hne : proposals ≠ []) :
    Leads proposals (countVotes proposals).mostVotes (countVotes proposals).bestProposal :=
  (counted_countVotes proposals).leads.resolve_left fun h => hne h.1

/-- The best proposal is one of them. -/
theorem best_proposal_mem {proposals : List (List ℚ)} (hne : proposals ≠ []) :
    (countVotes proposals).bestProposal ∈ proposals := by
  have hleads := leads_countVotes hne
  obtain ⟨p, hp⟩ := List.exists_mem_of_ne_nil proposals hne
  have hpos : 0 < proposals.count p := List.count_pos_iff.mpr hp
  rw [← List.count_pos_iff, hleads.count]
  exact hpos.trans_le (hleads.le_most p)

/-! ## Sequences of calls -/

inductive Call where
  | propose (gain : List ℚ)
  | update

def step (s : BbrInterface) : Call → BbrInterface
  | .propose gain => s.proposePacingGainCycle gain
  | .update => s.updatePacingGainCycle

/-- The state after a sequence of calls, with adaptation enabled. -/
def after (calls : List Call) : BbrInterface := run step (init false) calls

/-- The proposals since the last adoption. -/
def pending (calls : List Call) : List (List ℚ) :=
  calls.foldl (fun proposals call =>
    match call with
    | .propose gain => proposals ++ [gain]
    | .update => if minimumProposals ≤ proposals.length then [] else proposals) []

theorem pending_concat_propose (calls : List Call) (gain : List ℚ) :
    pending (calls ++ [.propose gain]) = pending calls ++ [gain] := by
  rw [pending, List.foldl_append]
  rfl

theorem pending_concat_update (calls : List Call) :
    pending (calls ++ [.update]) =
      if minimumProposals ≤ (pending calls).length then [] else pending calls := by
  rw [pending, List.foldl_append]
  rfl

variable {s : BbrInterface}

theorem update_of_lt (hlt : s.kPacingGainProposals.length < minimumProposals) :
    s.updatePacingGainCycle = s := by
  unfold updatePacingGainCycle
  split
  · rfl
  · exact if_neg fun h => absurd h.2 (not_le.mpr hlt)

theorem update_of_le (hs : s.noAdaptation = false) (hgain : ∀ p ∈ s.kPacingGainProposals, p ≠ [])
    (hle : minimumProposals ≤ s.kPacingGainProposals.length) :
    s.updatePacingGainCycle = { s with
      kPacingGain := (countVotes s.kPacingGainProposals).bestProposal
      kPacingGainProposals := [] } := by
  have hne : s.kPacingGainProposals ≠ [] := by
    rw [← List.length_pos_iff]
    exact Nat.lt_of_lt_of_le (by decide) hle
  have hbest := hgain _ (best_proposal_mem hne)
  unfold updatePacingGainCycle
  dsimp only
  rw [hs, if_neg Bool.false_ne_true, if_pos ⟨hbest, hle⟩]

/-- **Run lemma.** An update sees the proposals since the last adoption. -/
theorem proposals_after {calls : List Call} (hgain : ∀ gain, .propose gain ∈ calls → gain ≠ []) :
    (after calls).noAdaptation = false ∧ (after calls).kPacingGainProposals = pending calls ∧
      ∀ p ∈ pending calls, p ≠ [] := by
  induction calls using List.reverseRecOn with
  | nil => exact ⟨rfl, rfl, fun p hp => absurd hp List.not_mem_nil⟩
  | append_singleton calls call ih =>
    obtain ⟨hadapt, hproposals, hne⟩ := ih fun gain h => hgain gain (List.mem_append_left _ h)
    rw [after, run_concat, ← after]
    cases call with
    | propose gain =>
      have hstep : (after calls).proposePacingGainCycle gain =
          { after calls with
            kPacingGainProposals := (after calls).kPacingGainProposals ++ [gain] } :=
        if_neg (by rw [hadapt]; exact Bool.false_ne_true)
      rw [pending_concat_propose, step, hstep]
      refine ⟨hadapt, by rw [hproposals], ?_⟩
      rw [List.forall_mem_append]
      refine ⟨hne, fun p hp => ?_⟩
      rw [List.mem_singleton.mp hp]
      exact hgain gain (List.mem_append_right _ (List.mem_singleton_self _))
    | update =>
      rw [pending_concat_update, step]
      rcases lt_or_ge (pending calls).length minimumProposals with hlt | hle
      · rw [update_of_lt (hproposals ▸ hlt), if_neg (not_le.mpr hlt)]
        exact ⟨hadapt, hproposals, hne⟩
      · rw [update_of_le hadapt (hproposals ▸ hne) (hproposals ▸ hle), if_pos hle]
        exact ⟨hadapt, rfl, fun p hp => absurd hp List.not_mem_nil⟩

/-- In any sequence of calls with proposals that are not empty: an update with fewer than five
proposals since the last adoption changes nothing; one with at least five adopts the proposal with
the most votes, of these the first to have as many, and starts anew. -/
theorem update_adopts_plurality (calls : List Call)
    (hgain : ∀ gain, .propose gain ∈ calls → gain ≠ []) :
    let s := after calls
    let t := s.updatePacingGainCycle
    let proposals := pending calls
    s.kPacingGainProposals = proposals ∧
    (proposals.length < 5 → t = s) ∧
    (5 ≤ proposals.length →
      t.kPacingGainProposals = [] ∧ t.kPacingGain ∈ proposals ∧
      (∀ p, proposals.count p ≤ proposals.count t.kPacingGain) ∧
      ∃ before, before <+: proposals ∧
        before.count t.kPacingGain = proposals.count t.kPacingGain ∧
        ∀ p, p ≠ t.kPacingGain → before.count p < proposals.count t.kPacingGain) := by
  intro s t proposals
  obtain ⟨hadapt, hproposals, hne⟩ := proposals_after hgain
  refine ⟨hproposals, fun hlt => update_of_lt (hproposals ▸ hlt), fun hle => ?_⟩
  have ht : t = { s with
      kPacingGain := (countVotes proposals).bestProposal
      kPacingGainProposals := [] } := by
    show s.updatePacingGainCycle = _
    rw [update_of_le hadapt (hproposals ▸ hne) (hproposals ▸ hle), hproposals]
  have hproposals_ne : proposals ≠ [] := by
    rw [← List.length_pos_iff]
    omega
  have hleads := leads_countVotes hproposals_ne
  rw [ht]
  refine ⟨rfl, best_proposal_mem hproposals_ne, ?_⟩
  dsimp only
  rw [hleads.count]
  exact ⟨hleads.le_most, hleads.first⟩

/-- Two proposals with two votes each, of which the second has them first. -/
def twoEach : List Call :=
  [.propose [1, 2], .propose [2], .propose [2], .propose [1, 2], .propose [1]]

theorem update_adopts_plurality_twoEach :
    let t := (after twoEach).updatePacingGainCycle
    t.kPacingGain = [2] ∧ t.kPacingGainProposals = [] ∧
      ∀ p, (pending twoEach).count p ≤ (pending twoEach).count t.kPacingGain := by
  have hgain : ∀ gain, Call.propose gain ∈ twoEach → gain ≠ [] := by
    intro gain h
    simp only [twoEach, List.mem_cons, Call.propose.injEq, List.not_mem_nil, or_false] at h
    rcases h with rfl | rfl | rfl | rfl | rfl <;> exact List.cons_ne_nil _ _
  have h := (update_adopts_plurality twoEach hgain).2.2 (by decide)
  exact ⟨by decide +kernel, h.1, h.2.2.1⟩

end BbrInterface

end Cc
end LiveStream
