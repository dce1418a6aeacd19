import SolanaQos.ScoreBatch
/-!
# The model with stake (`model/src/models/ip_signer_stake.rs`)

The tables and everything done to them are those of the ip and signer model; beside them stand the stake of some ips
and a total, set at construction and by every batch.  `_forward` adds the two scores and multiplies by `stake_score`,
whose comment promises a factor between 1 and 2.

The factor is `(stake + total) / total`, on 64-bit words.  Nothing relates the stakes to the total, so the promise
holds exactly for those ips whose stake the total covers, without a sum that wraps and with a total that is not zero
(`stakeScore_bounded_iff`).  For the combined score that is the condition too, as long as the sum of the two scores is
positive; if it is zero, every factor will do.  `forward_bounded_iff` says so over every run, with the stakes and the
total that were supplied last (`lastSupplied`).

The bound from below needs scores that are not negative (`NonNeg`), which every call keeps as long as it is given no
negative value.  Unlike the mirrors of the other model, this asks nothing of how the two trees of a table agree.
Scores are exact rationals.
-/
namespace Qos

open Runs

variable {S : Sokoban} {F α : Type} {m maxSigners maxIps : Nat} [LinearOrder F] [LinearOrder α]

/-- A score from a `u64` sum that wraps.  With a zero total the quotient is no number. -/
def stakeScore [Div F] [NatCast F] (stake totalStake : UInt64) : Option F :=
  if totalStake = 0 then none else some (((stake + totalStake).toNat : F) / (totalStake.toNat : F))

structure IpSignerStakeModel (S : Sokoban) (F : Type) [LinearOrder F] (maxSigners maxIps : Nat) extends
    IpSignerModel S F maxSigners maxIps where
  stakeLookup : Std.HashMap UInt32 UInt64
  totalStake : UInt64

namespace IpSignerStakeModel

def new (ipScores : List (UInt32 × F)) (signerScores : List (Pubkey × F)) (stakeLookup : Std.HashMap UInt32 UInt64)
    (totalStake : UInt64) : IpSignerStakeModel S F maxSigners maxIps :=
  { toIpSignerModel := .new ipScores signerScores, stakeLookup := stakeLookup, totalStake := totalStake }

def ipScore [One F] (model : IpSignerStakeModel S F maxSigners maxIps) (ip : UInt32) : F :=
  (S.get model.ip.score ip).getD model.approximateMedianIpScore

def signerScore [One F] (model : IpSignerStakeModel S F maxSigners maxIps) (signer : Pubkey) : F :=
  (S.get model.signer.score signer).getD model.approximateMedianSignerScore

def forward [One F] [Add F] [Mul F] [Div F] [NatCast F] (model : IpSignerStakeModel S F maxSigners maxIps) (ip : UInt32)
    (signer : Pubkey) : Option F := do
  let stakeScore ← stakeScore (model.stakeLookup[ip]?.getD 0) model.totalStake
  return (model.ipScore ip + model.signerScore signer) * stakeScore

def ipFeedback [Mul F] [OfScientific F] (model : IpSignerStakeModel S F maxSigners maxIps) (ip : UInt32) :
    IpSignerStakeModel S F maxSigners maxIps :=
  { model with toIpSignerModel := model.toIpSignerModel.ipFeedback ip }

def prune (model : IpSignerStakeModel S F maxSigners maxIps) (numIps numSigners : Nat) :
    Except Panic (IpSignerStakeModel S F maxSigners maxIps) := do
  return { model with toIpSignerModel := ← model.toIpSignerModel.prune numIps numSigners }

variable [One F] [Add F] [Sub F] [Mul F] [Div F] [NatCast F] [OfScientific F]

def updateModel (model : IpSignerStakeModel S F maxSigners maxIps) (transactions : List (QoSTransactionMeta F))
    (pruneSigners pruneIps : Nat) (totalStake : UInt64) (stakeLookup : Std.HashMap UInt32 UInt64) :
    Except Panic (IpSignerStakeModel S F maxSigners maxIps) := do
  let tables ← model.toIpSignerModel.updateModel transactions pruneSigners pruneIps
  return { toIpSignerModel := tables, stakeLookup := stakeLookup, totalStake := totalStake }

end IpSignerStakeModel

/-! ## Tables of non-negative scores -/

namespace ScoreTable

/-- No score below 0 on either side; the two sides need not agree. -/
structure NonNeg (t : ScoreTable S ℚ α m) : Prop where
  score : ∀ k s, S.get t.score k = some s → 0 ≤ s
  inverse : ∀ e u, S.get t.inverse e = some u → 0 ≤ (ofLex e).1

theorem NonNeg.empty : NonNeg (empty : ScoreTable S ℚ α m) where
  score := fun k s h => by
    rw [ScoreTable.empty, S.get_new] at h
    cases h
  inverse := fun e u h => by
    rw [ScoreTable.empty, S.get_new] at h
    cases h

theorem NonNeg.insertBoth {t : ScoreTable S ℚ α m} (h : NonNeg t) (k : α) {s : ℚ} (hs : 0 ≤ s) :
    NonNeg (t.insertBoth k s) where
  score := fun k' s' hget => by
    rcases Sokoban.get_insert_cases hget with ⟨-, rfl⟩ | hget
    · exact hs
    · exact h.score k' s' hget
  inverse := fun e u hget => by
    rcases Sokoban.get_insert_cases hget with ⟨rfl, -⟩ | hget
    · exact hs
    · exact h.inverse e u hget

theorem NonNeg.rescore {t : ScoreTable S ℚ α m} (h : NonNeg t) {k : α} {old new : ℚ} (hk : S.get t.score k = some old)
    (hnew : 0 ≤ new) : NonNeg (t.rescore k old new) where
  score := fun k' s hget => by
    unfold ScoreTable.rescore at hget
    rw [S.get_set _ _ _ _ (by rw [hk]; rfl)] at hget
    by_cases hkk : k' = k
    · rw [if_pos hkk] at hget
      cases hget
      exact hnew
    · rw [if_neg hkk] at hget
      exact h.score k' s hget
  inverse := fun e u hget => by
    rcases Sokoban.get_insert_cases hget with ⟨rfl, -⟩ | hget
    · exact hnew
    · exact h.inverse e u (Sokoban.get_of_remove hget)

theorem NonNeg.feedback {t : ScoreTable S ℚ α m} (h : NonNeg t) (k : α) : NonNeg (t.feedback k) := by
  unfold ScoreTable.feedback
  cases hk : S.get t.score k with
  | none => exact h
  | some s =>
    have hs : 0 ≤ s := h.score k s hk
    exact h.rescore hk (by positivity)

theorem NonNeg.median {t : ScoreTable S ℚ α m} (h : NonNeg t) : 0 ≤ t.approximateMedian := by
  unfold approximateMedian
  cases hr : S.root t.inverse with
  | none => exact zero_le_one
  | some e =>
    have hmem := (S.mem_keys t.inverse e).1 (S.root_some _ _ hr)
    obtain ⟨u, hu⟩ := Option.isSome_iff_exists.1 hmem
    exact h.inverse e u hu

theorem NonNeg.getD {t : ScoreTable S ℚ α m} (h : NonNeg t) (k : α) :
    0 ≤ (S.get t.score k).getD t.approximateMedian := by
  cases hk : S.get t.score k with
  | none => exact h.median
  | some s => exact h.score k s hk

theorem NonNeg.pruneLoop : ∀ (n : Nat) {t t' : ScoreTable S ℚ α m}, NonNeg t → pruneLoop n t = .ok t' → NonNeg t'
  | 0, t, t', h, hp => by
    cases hp
    exact h
  | n + 1, t, t', h, hp => by
    rw [ScoreTable.pruneLoop] at hp
    split at hp
    · cases hp
    · rename_i e inverse hr
      refine NonNeg.pruneLoop n ⟨fun k s hget => h.score k s (Sokoban.get_of_remove hget), fun e' u hget => ?_⟩ hp
      obtain ⟨-, hsame⟩ := S.removeRoot_some _ _ _ hr
      rw [hsame] at hget
      by_cases he : e' = e
      · rw [if_pos he] at hget
        cases hget
      · rw [if_neg he] at hget
        exact h.inverse e' u hget

theorem NonNeg.foldl_insertBoth : ∀ (l : List (α × ℚ)) {t : ScoreTable S ℚ α m}, NonNeg t → (∀ e ∈ l, 0 ≤ e.2) →
    NonNeg (l.foldl (fun t e => t.insertBoth e.1 e.2) t)
  | [], t, h, _ => h
  | e :: l, t, h, hl => by
    obtain ⟨he, hl⟩ := List.forall_mem_cons.1 hl
    exact NonNeg.foldl_insertBoth l (h.insertBoth e.1 he) hl

end ScoreTable

def NonNegSums (cands : Candidates ℚ α) : Prop := ∀ (k : α) c, cands[k]? = some c → 0 ≤ c.scoreSum

theorem NonNegSums.finalize {c : ScoreUpdateCandidate ℚ} (h : 0 ≤ c.scoreSum) : 0 ≤ c.finalize :=
  div_nonneg h (Nat.cast_nonneg _)

theorem nonNegSums_collect (key : QoSTransactionMeta ℚ → α) {txs : List (QoSTransactionMeta ℚ)}
    (hvalues : ∀ tx ∈ txs, 0 ≤ tx.value) : NonNegSums (Candidates.collect key txs) := by
  intro k c hc
  rw [collect_get] at hc
  rw [candidateOf_sum hc]
  refine List.sum_nonneg fun v hv => ?_
  obtain ⟨tx, htx, rfl⟩ := List.mem_map.1 hv
  exact hvalues tx (List.mem_of_mem_filter htx)

theorem ema_nonneg {old new : ℚ} (hold : 0 ≤ old) (hnew : 0 ≤ new) : 0 ≤ ema old new := by
  unfold ema
  norm_num
  linarith

namespace ScoreTable

theorem NonNeg.updateTracked {median : ℚ} (hmedian : 0 ≤ median) : ∀ (l : List α) {t : ScoreTable S ℚ α m}
    {cands : Candidates ℚ α}, NonNeg t → NonNegSums cands →
    NonNeg (l.foldl (updateTracked median) (t, cands)).1 ∧ NonNegSums (l.foldl (ScoreTable.updateTracked median) (t, cands)).2
  | [], t, cands, h, hc => ⟨h, hc⟩
  | k :: l, t, cands, h, hc => by
    rw [List.foldl_cons]
    cases hk : S.get t.score k with
    | none =>
      simp only [ScoreTable.updateTracked, hk]
      exact NonNeg.updateTracked hmedian l h hc
    | some score =>
      simp only [ScoreTable.updateTracked, hk]
      refine NonNeg.updateTracked hmedian l (h.rescore hk (ema_nonneg (h.score k score hk) ?_)) fun k' c hget => ?_
      · cases hf : (cands[k]?.filter fun sc => 5 ≤ sc.count) with
        | none => exact hmedian
        | some c => exact NonNegSums.finalize (hc k c (Option.filter_eq_some_iff.1 hf).1)
      · rw [treeMap_get_erase] at hget
        by_cases hkk : k' = k
        · rw [if_pos hkk] at hget
          cases hget
        · rw [if_neg hkk] at hget
          exact hc k' c hget

theorem NonNeg.insertCandidates : ∀ (l : List (α × ScoreUpdateCandidate ℚ)) {t : ScoreTable S ℚ α m}, NonNeg t →
    (∀ c ∈ l, 0 ≤ c.2.scoreSum) → NonNeg (l.foldl insertCandidate t)
  | [], t, h, _ => h
  | c :: l, t, h, hl => by
    obtain ⟨hc, hl⟩ := List.forall_mem_cons.1 hl
    refine NonNeg.insertCandidates l ?_ hl
    unfold insertCandidate
    split
    · exact h.insertBoth c.1 (NonNegSums.finalize hc)
    · exact h

theorem NonNeg.updateScores {t : ScoreTable S ℚ α m} (h : NonNeg t) {cands : Candidates ℚ α} (hc : NonNegSums cands) :
    NonNeg (t.updateScores cands) := by
  obtain ⟨h₁, hrest⟩ := NonNeg.updateTracked h.median (S.keys t.score) h hc
  refine NonNeg.insertCandidates _ h₁ fun c hmem => ?_
  exact hrest c.1 c.2 (Std.TreeMap.mem_toList_iff_getElem?_eq_some.1 hmem)

end ScoreTable

/-! ## Runs -/

inductive StakeOp (F : Type)
  | updateModel (transactions : List (QoSTransactionMeta F)) (pruneSigners pruneIps : Nat) (totalStake : UInt64)
    (stakeLookup : Std.HashMap UInt32 UInt64)
  | ipFeedback (ip : UInt32)
  | prune (numIps numSigners : Nat)

/-- The total and the stakes a call supplies. -/
def StakeOp.supplied : StakeOp F → Option (UInt64 × Std.HashMap UInt32 UInt64)
  | .updateModel _ _ _ totalStake stakeLookup => some (totalStake, stakeLookup)
  | .ipFeedback _ => none
  | .prune _ _ => none

def lastSupplied (stakes : UInt64 × Std.HashMap UInt32 UInt64) (ops : List (StakeOp F)) :
    UInt64 × Std.HashMap UInt32 UInt64 :=
  ops.foldl (fun stakes op => op.supplied.getD stakes) stakes

def StakeOp.nonneg : StakeOp ℚ → Prop
  | .updateModel txs _ _ _ _ => ∀ tx ∈ txs, 0 ≤ tx.value
  | .ipFeedback _ => True
  | .prune _ _ => True

namespace IpSignerStakeModel

section Step

variable [One F] [Add F] [Sub F] [Mul F] [Div F] [NatCast F] [OfScientific F]

def step (model : IpSignerStakeModel S F maxSigners maxIps) :
    StakeOp F → Except Panic (Unit × IpSignerStakeModel S F maxSigners maxIps)
  | .updateModel txs pruneSigners pruneIps totalStake stakeLookup => do
    return ((), ← model.updateModel txs pruneSigners pruneIps totalStake stakeLookup)
  | .ipFeedback ip => return ((), model.ipFeedback ip)
  | .prune numIps numSigners => do return ((), ← model.prune numIps numSigners)

theorem step_stakes {model model' : IpSignerStakeModel S F maxSigners maxIps} {op : StakeOp F} {o : Unit}
    (h : model.step op = .ok (o, model')) :
    (model'.totalStake, model'.stakeLookup) = op.supplied.getD (model.totalStake, model.stakeLookup) := by
  cases op with
  | updateModel txs pruneSigners pruneIps totalStake stakeLookup =>
    obtain ⟨after, hupdate, h⟩ := bind_eq_ok h
    obtain ⟨tables, -, hupdate⟩ := bind_eq_ok hupdate
    cases hupdate
    cases h
    rfl
  | ipFeedback ip =>
    cases h
    rfl
  | prune numIps numSigners =>
    obtain ⟨after, hprune, h⟩ := bind_eq_ok h
    obtain ⟨tables, -, hprune⟩ := bind_eq_ok hprune
    cases hprune
    cases h
    rfl

theorem run_stakes : ∀ (ops : List (StakeOp F)) {model model' : IpSignerStakeModel S F maxSigners maxIps} {os : List Unit},
    run step model ops = .ok (os, model') →
    (model'.totalStake, model'.stakeLookup) = lastSupplied (model.totalStake, model.stakeLookup) ops
  | [], model, model', os, h => by
    cases h
    rfl
  | op :: ops, model, model', os, h => by
    obtain ⟨o, model₁, os', h₁, h₂, -⟩ := run_cons_ok h
    rw [run_stakes ops h₂, step_stakes h₁]
    rfl

end Step

/-- Both tables are non-negative. -/
def NonNeg (model : IpSignerStakeModel S ℚ maxSigners maxIps) : Prop :=
  ScoreTable.NonNeg model.ip ∧ ScoreTable.NonNeg model.signer

theorem prune_nonNeg {model : IpSignerModel S ℚ maxSigners maxIps} (hip : ScoreTable.NonNeg model.ip)
    (hsigner : ScoreTable.NonNeg model.signer) (numIps numSigners : Nat) :
    ∃ model', model.prune numIps numSigners = .ok model' ∧ ScoreTable.NonNeg model'.ip ∧
      ScoreTable.NonNeg model'.signer := by
  obtain ⟨model', h⟩ := model.prune_total numIps numSigners
  refine ⟨model', h, ?_⟩
  obtain ⟨ip, eip, h⟩ := bind_eq_ok h
  obtain ⟨signer, esigner, h⟩ := bind_eq_ok h
  cases h
  exact ⟨hip.pruneLoop _ eip, hsigner.pruneLoop _ esigner⟩

theorem NonNeg.step {model : IpSignerStakeModel S ℚ maxSigners maxIps} (h : NonNeg model) {op : StakeOp ℚ}
    (hop : op.nonneg) : ∃ o model', model.step op = .ok (o, model') ∧ NonNeg model' := by
  obtain ⟨hip, hsigner⟩ := h
  cases op with
  | updateModel txs pruneSigners pruneIps totalStake stakeLookup =>
    have hip' := hip.updateScores (nonNegSums_collect QoSTransactionMeta.ip hop)
    have hsigner' := hsigner.updateScores (nonNegSums_collect QoSTransactionMeta.signer hop)
    obtain ⟨tables, e, h'⟩ := @prune_nonNeg _ _ _ (model.toIpSignerModel.unpruned txs) hip' hsigner' pruneIps pruneSigners
    refine ⟨(), ⟨tables, stakeLookup, totalStake⟩, ?_, h'⟩
    rw [IpSignerStakeModel.step, updateModel, IpSignerModel.updateModel_eq, e]
    rfl
  | ipFeedback ip => exact ⟨(), _, rfl, hip.feedback ip, hsigner⟩
  | prune numIps numSigners =>
    obtain ⟨tables, e, h'⟩ := prune_nonNeg hip hsigner numIps numSigners
    refine ⟨(), ⟨tables, model.stakeLookup, model.totalStake⟩, ?_, h'⟩
    rw [IpSignerStakeModel.step, prune, e]
    rfl

end IpSignerStakeModel

/-- **A factor between 1 and 2**: exactly for a stake that the total covers, or for a score the factor cannot move. -/
theorem stakeScore_bounded_iff {score : ℚ} (hscore : 0 ≤ score) {stake total : UInt64} (htotal : total ≠ 0)
    (hsum : stake.toNat + total.toNat < 2 ^ 64) :
    (∃ factor, stakeScore stake total = some factor ∧ score ≤ score * factor ∧ score * factor ≤ 2 * score) ↔
      stake ≤ total ∨ score = 0 := by
  have hpos : (0 : ℚ) < total.toNat := by
    have : total.toNat ≠ 0 := fun h => htotal (UInt64.toNat_inj.1 h)
    exact_mod_cast Nat.pos_of_ne_zero this
  have hadd : (stake + total).toNat = stake.toNat + total.toNat := by
    rw [UInt64.toNat_add]
    exact Nat.mod_eq_of_lt hsum
  have hfactor : stakeScore stake total = some (1 + (stake.toNat : ℚ) / total.toNat) := by
    rw [stakeScore, if_neg htotal, hadd, Nat.cast_add, add_div, div_self hpos.ne', add_comm]
  have hle : (stake.toNat : ℚ) / total.toNat ≤ 1 ↔ stake ≤ total := by
    rw [div_le_one hpos, Nat.cast_le, UInt64.le_iff_toNat_le]
  have hnonneg : (0 : ℚ) ≤ (stake.toNat : ℚ) / total.toNat := by positivity
  rw [← hle]
  generalize (stake.toNat : ℚ) / total.toNat = share at hfactor hnonneg
  constructor
  · rintro ⟨factor, hf, -, hupper⟩
    rw [hfactor] at hf
    cases hf
    rcases hscore.eq_or_lt with hzero | hlt
    · exact .inr hzero.symm
    · left
      have : score * share ≤ score * 1 := by linarith
      exact le_of_mul_le_mul_left this hlt
  · intro h
    refine ⟨_, hfactor, ?_, ?_⟩
    · have := mul_nonneg hscore hnonneg
      linarith
    · rcases h with hshare | hzero
      · have := mul_le_mul_of_nonneg_left hshare hscore
        linarith
      · rw [hzero]
        simp

/-- **When the stake multiplier keeps its promise.**  In every run from any lists of non-negative scores and any stakes, for
every ip and signer: the sum does not overflow, the total is not zero and `_forward` lies between the sum of the two scores
and its double, exactly if the total supplied last is not zero, fits beside the ip's stake in 64 bits, and covers that
stake, or both scores are zero. -/
theorem forward_bounded_iff (ipScores : List (UInt32 × ℚ)) (signerScores : List (Pubkey × ℚ))
    (stakeLookup : Std.HashMap UInt32 UInt64) (totalStake : UInt64) (ops : List (StakeOp ℚ))
    (hips : ∀ e ∈ ipScores, 0 ≤ e.2) (hsigners : ∀ e ∈ signerScores, 0 ≤ e.2) (hops : ∀ op ∈ ops, op.nonneg) :
    ∃ os model, run IpSignerStakeModel.step
        (.new ipScores signerScores stakeLookup totalStake : IpSignerStakeModel S ℚ maxSigners maxIps) ops =
        .ok (os, model) ∧
      ∀ ip signer,
        let stakes := lastSupplied (totalStake, stakeLookup) ops
        let stake := stakes.2[ip]?.getD 0
        let score := model.ipScore ip + model.signerScore signer
        0 ≤ model.ipScore ip ∧ 0 ≤ model.signerScore signer ∧
        (stake.toNat + stakes.1.toNat < 2 ^ 64 ∧ stakes.1 ≠ 0 ∧
            (∃ v, model.forward ip signer = some v ∧ score ≤ v ∧ v ≤ 2 * score) ↔
          stakes.1 ≠ 0 ∧ stake.toNat + stakes.1.toNat < 2 ^ 64 ∧ (stake ≤ stakes.1 ∨ score = 0)) := by
  have hnew : IpSignerStakeModel.NonNeg
      (.new ipScores signerScores stakeLookup totalStake : IpSignerStakeModel S ℚ maxSigners maxIps) :=
    ⟨ScoreTable.NonNeg.empty.foldl_insertBoth ipScores hips, ScoreTable.NonNeg.empty.foldl_insertBoth signerScores hsigners⟩
  obtain ⟨os, model, hrun, hip, hsigner⟩ := run_total StakeOp.nonneg IpSignerStakeModel.NonNeg
    (fun _ _ hop h => h.step hop) ops _ hops hnew
  refine ⟨os, model, hrun, fun ip signer => ?_⟩
  have hstakes : (model.totalStake, model.stakeLookup) = lastSupplied (totalStake, stakeLookup) ops :=
    IpSignerStakeModel.run_stakes ops hrun
  rw [← hstakes]
  intro stakes stake score
  have hip₀ : 0 ≤ model.ipScore ip := hip.getD ip
  have hsigner₀ : 0 ≤ model.signerScore signer := hsigner.getD signer
  refine ⟨hip₀, hsigner₀, ?_⟩
  have hforward : model.forward ip signer = (stakeScore stake stakes.1).map (score * ·) := by
    unfold IpSignerStakeModel.forward
    cases (stakeScore stake stakes.1 : Option ℚ) <;> rfl
  rw [and_left_comm, hforward]
  apply and_congr_right
  intro htotal
  apply and_congr_right
  intro hsum
  rw [← stakeScore_bounded_iff (add_nonneg hip₀ hsigner₀) htotal hsum]
  simp only [Option.map_eq_some_iff]
  constructor
  · rintro ⟨v, ⟨factor, hf, rfl⟩, hbounds⟩
    exact ⟨factor, hf, hbounds⟩
  · rintro ⟨factor, hf, hbounds⟩
    exact ⟨_, ⟨factor, hf, rfl⟩, hbounds⟩

/-- An ip with half the stake, after a batch that supplies a new total. -/
theorem forward_bounded_iff_half :
    ∃ os model, run IpSignerStakeModel.step (.new [] [] ∅ 0 : IpSignerStakeModel sortedTree ℚ 16 16)
        [.updateModel [] 4 4 2 (Std.HashMap.insert ∅ 7 1)] = .ok (os, model) ∧
      ∃ v, model.forward 7 ⟨Vector.replicate 32 1⟩ = some v ∧
        model.ipScore 7 + model.signerScore ⟨Vector.replicate 32 1⟩ ≤ v ∧
        v ≤ 2 * (model.ipScore 7 + model.signerScore ⟨Vector.replicate 32 1⟩) := by
  obtain ⟨os, model, hrun, h⟩ := @forward_bounded_iff sortedTree 16 16 [] [] ∅ 0
    [.updateModel [] 4 4 2 (Std.HashMap.insert ∅ 7 1)] (by simp) (by simp) (by simp [StakeOp.nonneg])
  refine ⟨os, model, hrun, ?_⟩
  have hstake : (lastSupplied (F := ℚ) (0, ∅) [.updateModel [] 4 4 2 (Std.HashMap.insert ∅ 7 1)]) =
      (2, Std.HashMap.insert ∅ 7 1) := rfl
  have := (h 7 ⟨Vector.replicate 32 1⟩).2.2
  simp only [hstake, Std.HashMap.getElem?_insert_self, Option.getD_some] at this
  exact (this.2 ⟨by decide, by decide, .inl (by decide)⟩).2.2

/-- **A stake above the total**: an ip with three times the total stake has its score multiplied by four. -/
theorem forward_exceeds_double :
    (IpSignerStakeModel.new [] [] (Std.HashMap.insert ∅ 7 3) 1 : IpSignerStakeModel sortedTree ℚ 16 16).forward 7
        ⟨Vector.replicate 32 1⟩ = some 8 ∧
      (IpSignerStakeModel.new [] [] (Std.HashMap.insert ∅ 7 3) 1 : IpSignerStakeModel sortedTree ℚ 16 16).ipScore 7 = 1 ∧
      (IpSignerStakeModel.new [] [] (Std.HashMap.insert ∅ 7 3) 1 : IpSignerStakeModel sortedTree ℚ 16 16).signerScore
        ⟨Vector.replicate 32 1⟩ = 1 ∧ ¬ ((8 : ℚ) ≤ 2 * (1 + 1)) := by
  have hip : (IpSignerStakeModel.new [] [] (Std.HashMap.insert ∅ 7 3) 1 :
      IpSignerStakeModel sortedTree ℚ 16 16).ipScore 7 = 1 := rfl
  have hsigner : (IpSignerStakeModel.new [] [] (Std.HashMap.insert ∅ 7 3) 1 :
      IpSignerStakeModel sortedTree ℚ 16 16).signerScore ⟨Vector.replicate 32 1⟩ = 1 := rfl
  refine ⟨?_, hip, hsigner, by norm_num⟩
  have hstake : (Std.HashMap.insert ∅ 7 3 : Std.HashMap UInt32 UInt64)[(7 : UInt32)]?.getD 0 = 3 := by
    rw [Std.HashMap.getElem?_insert_self]
    rfl
  have hsum : (3 + 1 : UInt64).toNat = 4 := rfl
  have hone : (1 : UInt64).toNat = 1 := rfl
  have hfactor : (stakeScore 3 1 : Option ℚ) = some 4 := by
    rw [stakeScore, if_neg (by decide), hsum, hone]
    norm_num
  unfold IpSignerStakeModel.forward
  rw [hip, hsigner]
  simp only [IpSignerStakeModel.new, hstake, hfactor]
  norm_num

end Qos
