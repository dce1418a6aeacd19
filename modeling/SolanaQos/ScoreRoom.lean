import SolanaQos.Audit
import SolanaQos.ScoreBatch
/-!
# Room in the trees

`insert` of a new key into a full tree does nothing, and the model never looks at what `insert` returns.  Here the
operations of the model are audited: each insert passes a verdict on whether the tree holds the key afterwards, and
without the verdicts they are the operations themselves (`IpSignerModel.result_updateModelAudited`,
`IpSignerModel.result_ipFeedbackAudited`).

A rewritten score reuses the slot it frees, so only the new keys of a batch need room: the loop over the tracked keys
passes whatever the size (`passes_updateTracked`), and the loop over the candidates takes one place for each that
qualifies (`RoomFor.passes`).  So a batch passes where the trees have room for its new keys
(`Represents.passes_updateScores`).  The keys with at least five transactions each share the batch out, so they are at
most a fifth of its length (`card_newKeys_le`).

Conversely, an operation that passes no verdict has inserted nothing and changed no score (`feedback_of_silent`,
`updateScores_of_silent`).
-/
namespace Qos

open Runs Function

variable {S : Sokoban} {F α : Type} {m maxSigners maxIps : Nat} [LinearOrder F] [LinearOrder α]

/-! ## The audited operations -/

/-- An insert is accepted if the key is in the tree afterwards. -/
def Sokoban.insertAudited {K V : Type} [LinearOrder K] (t : S.Tree K V m) (k : K) (v : V) : Audit (S.Tree K V m) :=
  Audit.judge (S.get (S.insert t k v) k).isSome (S.insert t k v)

namespace ScoreTable

def insertBothAudited (t : ScoreTable S F α m) (k : α) (s : F) : Audit (ScoreTable S F α m) := do
  let score ← Sokoban.insertAudited t.score k s
  let inverse ← Sokoban.insertAudited t.inverse (entry s k) ()
  return ⟨score, inverse⟩

def rescoreAudited (t : ScoreTable S F α m) (k : α) (old new : F) : Audit (ScoreTable S F α m) := do
  let inverse ← Sokoban.insertAudited (S.remove t.inverse (entry old k)) (entry new k) ()
  return ⟨S.set t.score k new, inverse⟩

def feedbackAudited [Mul F] [OfScientific F] (t : ScoreTable S F α m) (k : α) : Audit (ScoreTable S F α m) :=
  match S.get t.score k with
  | some score => t.rescoreAudited k score (score * 0.01)
  | none => return t

section Update

variable [One F] [Add F] [Sub F] [Mul F] [Div F] [NatCast F] [OfScientific F]

def updateTrackedAudited (median : F) (acc : ScoreTable S F α m × Candidates F α) (k : α) :
    Audit (ScoreTable S F α m × Candidates F α) :=
  match S.get acc.1.score k with
  | none => return acc
  | some score => do
    let newScore := ((acc.2[k]?.filter (fun sc => 5 ≤ sc.count)).map ScoreUpdateCandidate.finalize).getD median
    let t ← acc.1.rescoreAudited k score (ema score newScore)
    return (t, acc.2.erase k)

def insertCandidateAudited (t : ScoreTable S F α m) (c : α × ScoreUpdateCandidate F) : Audit (ScoreTable S F α m) :=
  if 5 ≤ c.2.count then t.insertBothAudited c.1 c.2.finalize else return t

def updateScoresAudited (t : ScoreTable S F α m) (cands : Candidates F α) : Audit (ScoreTable S F α m) := do
  let r ← (S.keys t.score).foldlM (updateTrackedAudited t.approximateMedian) (t, cands)
  r.2.toList.foldlM insertCandidateAudited r.1

end Update

end ScoreTable

namespace IpSignerModel

def ipFeedbackAudited [Mul F] [OfScientific F] (model : IpSignerModel S F maxSigners maxIps) (ip : UInt32) :
    Audit (IpSignerModel S F maxSigners maxIps) := do
  let ip ← model.ip.feedbackAudited ip
  return { model with ip := ip }

def updateModelAudited [One F] [Add F] [Sub F] [Mul F] [Div F] [NatCast F] [OfScientific F]
    (model : IpSignerModel S F maxSigners maxIps) (transactions : List (QoSTransactionMeta F))
    (pruneSigners pruneIps : Nat) : Audit (Except Panic (IpSignerModel S F maxSigners maxIps)) := do
  let ip ← model.ip.updateScoresAudited (Candidates.collect QoSTransactionMeta.ip transactions)
  let signer ← model.signer.updateScoresAudited (Candidates.collect QoSTransactionMeta.signer transactions)
  return prune ⟨signer, ip⟩ pruneIps pruneSigners

end IpSignerModel

/-! ## Without the verdicts -/

namespace ScoreTable

theorem result_feedbackAudited [Mul F] [OfScientific F] (t : ScoreTable S F α m) (k : α) :
    (t.feedbackAudited k).result = t.feedback k := by
  unfold feedbackAudited feedback
  cases S.get t.score k <;> rfl

section Update

variable [One F] [Add F] [Sub F] [Mul F] [Div F] [NatCast F] [OfScientific F]

theorem result_updateTrackedAudited (median : F) (acc : ScoreTable S F α m × Candidates F α) (k : α) :
    (updateTrackedAudited median acc k).result = updateTracked median acc k := by
  unfold updateTrackedAudited updateTracked
  cases S.get acc.1.score k <;> rfl

omit [One F] [Add F] [Sub F] [Mul F] [OfScientific F] in
theorem result_insertCandidateAudited (t : ScoreTable S F α m) (c : α × ScoreUpdateCandidate F) :
    (t.insertCandidateAudited c).result = t.insertCandidate c := by
  unfold insertCandidateAudited insertCandidate
  split <;> rfl

theorem result_updateScoresAudited (t : ScoreTable S F α m) (cands : Candidates F α) :
    (t.updateScoresAudited cands).result = t.updateScores cands := by
  unfold updateScoresAudited updateScores
  simp only [Audit.result_bind, Audit.result_foldlM, result_updateTrackedAudited, result_insertCandidateAudited]

end Update

end ScoreTable

theorem IpSignerModel.result_ipFeedbackAudited [Mul F] [OfScientific F] (model : IpSignerModel S F maxSigners maxIps)
    (ip : UInt32) : (model.ipFeedbackAudited ip).result = model.ipFeedback ip := by
  unfold IpSignerModel.ipFeedbackAudited IpSignerModel.ipFeedback
  rw [Audit.result_bind, ScoreTable.result_feedbackAudited]
  rfl

theorem IpSignerModel.result_updateModelAudited [One F] [Add F] [Sub F] [Mul F] [Div F] [NatCast F] [OfScientific F]
    (model : IpSignerModel S F maxSigners maxIps) (txs : List (QoSTransactionMeta F)) (pruneSigners pruneIps : Nat) :
    (model.updateModelAudited txs pruneSigners pruneIps).result = model.updateModel txs pruneSigners pruneIps := by
  unfold IpSignerModel.updateModelAudited IpSignerModel.updateModel
  rw [Audit.result_bind, Audit.result_bind, ScoreTable.result_updateScoresAudited, ScoreTable.result_updateScoresAudited]
  rfl

/-! ## Where every insert is accepted -/

theorem Sokoban.passes_insertAudited {K V : Type} [LinearOrder K] {t : S.Tree K V m}
    (h : (S.keys t).length < S.capacity m) (k : K) (v : V) : (Sokoban.insertAudited t k v).Passes := by
  apply Audit.passes_judge
  rw [S.get_insert t k v k (Or.inr h), if_pos rfl]
  rfl

namespace ScoreTable

theorem Represents.passes_insertBoth {t : ScoreTable S F α m} {f : α → Option F} (h : Represents t f)
    (hroom : (S.keys t.inverse).length < S.capacity m) (k : α) (s : F) : (t.insertBothAudited k s).Passes := by
  apply Audit.Passes.bind
  · exact Sokoban.passes_insertAudited (by rw [← h.tracks.length_eq]; exact hroom) k s
  · apply Audit.Passes.bind
    · exact Sokoban.passes_insertAudited hroom _ ()
    · exact Audit.passes_pure _

theorem Represents.passes_rescore {t : ScoreTable S F α m} {f : α → Option F} (h : Represents t f) {k : α} {old : F}
    (hk : f k = some old) (new : F) : (t.rescoreAudited k old new).Passes := by
  apply Audit.Passes.bind
  · exact Sokoban.passes_insertAudited (h.room hk) _ ()
  · exact Audit.passes_pure _

theorem Represents.passes_feedback [Mul F] [OfScientific F] {t : ScoreTable S F α m} {f : α → Option F}
    (h : Represents t f) (k : α) : (t.feedbackAudited k).Passes := by
  unfold feedbackAudited
  cases hk : S.get t.score k with
  | none => exact Audit.passes_pure t
  | some score =>
    rw [h.score] at hk
    exact h.passes_rescore hk _

section Update

variable [One F] [Add F] [Sub F] [Mul F] [Div F] [NatCast F] [OfScientific F]

theorem passes_updateTracked (median : F) (l : List α) (acc : ScoreTable S F α m × Candidates F α)
    (h : ∃ f, Represents acc.1 f) : (l.foldlM (updateTrackedAudited median) acc).Passes := by
  refine Audit.passes_foldlM (fun _ acc => ∃ f, Represents acc.1 f) (fun k l acc h => ?_) l acc h
  obtain ⟨f, hf⟩ := h
  rw [result_updateTrackedAudited]
  unfold updateTrackedAudited updateTracked
  cases hk : S.get acc.1.score k with
  | none => exact ⟨Audit.passes_pure acc, f, hf⟩
  | some score =>
    rw [hf.score] at hk
    exact ⟨(hf.passes_rescore hk _).bind (Audit.passes_pure _), _, hf.rescore _ hk⟩

structure RoomFor (l : List (α × ScoreUpdateCandidate F)) (t : ScoreTable S F α m) (f : α → Option F) : Prop where
  represents : Represents t f
  distinct : (l.map Prod.fst).Nodup
  untracked : ∀ c ∈ l, f c.1 = none
  room : (S.keys t.inverse).length + (l.filter fun c => 5 ≤ c.2.count).length ≤ S.capacity m

omit [One F] [Add F] [Sub F] [Mul F] [OfScientific F] in
theorem RoomFor.passes {l : List (α × ScoreUpdateCandidate F)} {t : ScoreTable S F α m} {f : α → Option F}
    (h : RoomFor l t f) : (l.foldlM insertCandidateAudited t).Passes := by
  refine Audit.passes_foldlM (fun l t => ∃ f, RoomFor l t f) (fun c l t h => ?_) l t ⟨f, h⟩
  obtain ⟨f, hrep, hnd, hnone, hroom⟩ := h
  rw [result_insertCandidateAudited]
  constructor
  · unfold insertCandidateAudited
    by_cases hcount : 5 ≤ c.2.count
    · rw [if_pos hcount]
      rw [List.filter_cons_of_pos (by simpa using hcount), List.length_cons] at hroom
      exact hrep.passes_insertBoth (by omega) _ _
    · rw [if_neg hcount]
      exact Audit.passes_pure t
  · obtain ⟨f₁, h₁, -, -, -, hrest⟩ := hrep.insertCandidate_cons hnd hnone
    exact ⟨f₁, h₁, (List.nodup_cons.1 hnd).2, fun c' hc' => (hrest c' hc').2,
      le_trans (length_insertCandidate_le t c l) hroom⟩

/-- **A batch passes where the trees have room for its new keys.** -/
theorem Represents.passes_updateScores {t : ScoreTable S F α m} {f : α → Option F} (h : Represents t f)
    (cands : Candidates F α) {fresh : Finset α}
    (hfresh : ∀ k c, cands[k]? = some c → 5 ≤ c.count → f k = none → k ∈ fresh)
    (hroom : (S.keys t.inverse).length + fresh.card ≤ S.capacity m) : (t.updateScoresAudited cands).Passes := by
  apply Audit.Passes.bind
  · exact passes_updateTracked _ _ _ ⟨f, h⟩
  · simp only [Audit.result_foldlM, result_updateTrackedAudited]
    generalize hr : (S.keys t.score).foldl (ScoreTable.updateTracked t.approximateMedian) (t, cands) = r
    obtain ⟨h₁, hsize, hdistinct, hmem⟩ := h.averaged cands hr
    have hle := length_qualified_le hdistinct
      (fun c hc hcount => hfresh c.1 c.2 ((hmem c).1 hc).2 hcount ((hmem c).1 hc).1)
    exact RoomFor.passes ⟨h₁, hdistinct, fun c hc => by rw [((hmem c).1 hc).1, Option.map_none], by omega⟩

end Update

end ScoreTable

/-! ## Where nothing was inserted -/

namespace ScoreTable

theorem feedback_of_silent [Mul F] [OfScientific F] {t : ScoreTable S F α m} {k : α}
    (h : (t.feedbackAudited k).verdicts = []) : t.feedback k = t := by
  rw [← result_feedbackAudited]
  unfold feedbackAudited at h ⊢
  cases hk : S.get t.score k with
  | none => rfl
  | some score =>
    rw [hk] at h
    cases h

variable [One F] [Add F] [Sub F] [Mul F] [Div F] [NatCast F] [OfScientific F]

/-- **A batch without a verdict changes no score.** -/
theorem updateScores_of_silent {t : ScoreTable S F α m} {cands : Candidates F α}
    (h : (t.updateScoresAudited cands).verdicts = []) : t.updateScores cands = t := by
  have htracked : ∀ (acc : ScoreTable S F α m × Candidates F α) (k : α),
      (updateTrackedAudited t.approximateMedian acc k).verdicts = [] →
        (updateTrackedAudited t.approximateMedian acc k).result = acc := by
    intro acc k hsilent
    unfold updateTrackedAudited at hsilent ⊢
    cases hk : S.get acc.1.score k with
    | none => rfl
    | some score =>
      rw [hk] at hsilent
      cases hsilent
  have hfresh : ∀ (t : ScoreTable S F α m) (c : α × ScoreUpdateCandidate F),
      (t.insertCandidateAudited c).verdicts = [] → (t.insertCandidateAudited c).result = t := by
    intro t c hsilent
    unfold insertCandidateAudited at hsilent ⊢
    by_cases hcount : 5 ≤ c.2.count
    · rw [if_pos hcount] at hsilent
      cases hsilent
    · rw [if_neg hcount]
      rfl
  rw [← result_updateScoresAudited]
  unfold updateScoresAudited at h ⊢
  rw [Audit.verdicts_bind, List.append_eq_nil_iff] at h
  rw [Audit.result_bind]
  rw [Audit.result_foldlM_of_silent htracked _ _ h.1] at h ⊢
  exact Audit.result_foldlM_of_silent hfresh _ _ h.2

end ScoreTable

/-! ## How many sources of a batch qualify -/

open ScoreTable

theorem card_newKeys_le (t : ScoreTable S F α m) (key : QoSTransactionMeta F → α) (txs : List (QoSTransactionMeta F)) :
    5 * (t.newKeys key txs).card ≤ txs.length := by
  have hcount : ∀ k, (txs.map key).count k = (valuesOf key txs k).length := by
    intro k
    unfold valuesOf
    rw [List.length_map, List.count_eq_length_filter, List.filter_map, List.length_map]
    rfl
  calc 5 * (t.newKeys key txs).card
      = ∑ k ∈ t.newKeys key txs, 5 := by rw [Finset.sum_const, smul_eq_mul, mul_comm]
    _ ≤ ∑ k ∈ t.newKeys key txs, (txs.map key).count k :=
        Finset.sum_le_sum fun k hk => by rw [hcount]; exact (mem_newKeys.1 hk).2
    _ ≤ ∑ k ∈ (txs.map key).toFinset, (txs.map key).count k := Finset.sum_le_sum_of_subset (Finset.filter_subset _ _)
    _ = txs.length := by rw [List.sum_toFinset_count_eq_length, List.length_map]

end Qos
