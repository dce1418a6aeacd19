import SolanaQos.ScoreBatch
/-!
# The range of the scores

A score is a mean of transaction values, an average of a score with a mean or with another score of the same table, or
a hundredth of a score.  So all scores lie between 0 and the largest value that was ever handed in (`InRange`), if no
value is negative.  The median never brings the constant 1 into a table: a table with a score to average has a root,
and the root is one of its own scores (`Represents.median`, `LiveMedian`).  Scores are exact rationals.

One lemma for each operation that can change a score keeps the range, `InRange.updateScores` for a batch; a prune and a
refused insert only forget.  The bound is the largest value of the run so far, so the run lemma generalises over it.

A mean divides a sum by a count, and the count is a `u32`.  With more transactions of one key in a batch than it holds
the quotient is no mean any more, and the score leaves the range (`scores_wrap`); `ModelOp.countable` excludes that,
and `ModelOp.nonneg` negative values.
-/
namespace Qos

open Runs Function

variable {S : Sokoban} {F α : Type} {m maxSigners maxIps : Nat} [LinearOrder F] [LinearOrder α]

/-! ## The median -/

namespace ScoreTable

/-- **The fallback score**: 1 for an empty table, and else the score of some tracked key. -/
def LiveMedian [One F] (t : ScoreTable S F α m) : Prop :=
  (S.keys t.score = [] ∧ t.approximateMedian = 1) ∨ ∃ k, S.get t.score k = some t.approximateMedian

theorem Represents.median [One F] {t : ScoreTable S F α m} {f : α → Option F} (h : Represents t f) : LiveMedian t := by
  unfold LiveMedian approximateMedian
  cases hr : S.root t.inverse with
  | none =>
    left
    have hlen := h.tracks.length_eq
    rw [S.root_none _ hr] at hlen
    exact ⟨List.eq_nil_of_length_eq_zero hlen.symm, rfl⟩
  | some e =>
    right
    have hmem : e ∈ Sokoban.support t.inverse := List.mem_toFinset.2 (S.root_some _ _ hr)
    exact ⟨(ofLex e).2, by rw [h.score]; exact (h.tracks.mem_support e).1 hmem⟩

end ScoreTable

open ScoreTable

/-! ## One table -/

theorem ema_mem {V old new : ℚ} (hold : old ∈ Set.Icc 0 V) (hnew : new ∈ Set.Icc 0 V) : ema old new ∈ Set.Icc 0 V := by
  obtain ⟨h0, hV⟩ := hold
  obtain ⟨h0', hV'⟩ := hnew
  unfold ema
  constructor
  · norm_num
    linarith
  · norm_num
    linarith

theorem mean_mem {V : ℚ} {l : List ℚ} (hl : l ≠ []) (hv : ∀ v ∈ l, v ∈ Set.Icc 0 V) : mean l ∈ Set.Icc 0 V := by
  have hpos : (0 : ℚ) < l.length := by exact_mod_cast List.length_pos_iff.2 hl
  have hsum : l.sum ≤ l.length * V := by
    rw [← nsmul_eq_mul]
    exact List.sum_le_card_nsmul l V fun v hv' => (hv v hv').2
  unfold mean
  constructor
  · exact div_nonneg (List.sum_nonneg fun v hv' => (hv v hv').1) hpos.le
  · rw [div_le_iff₀ hpos, mul_comm]
    exact hsum

namespace ScoreTable

/-- **Every score lies between 0 and `V`**, in a table whose two trees agree. -/
def InRange (V : ℚ) (t : ScoreTable S ℚ α m) : Prop :=
  ∃ f, Represents t f ∧ ∀ k s, f k = some s → s ∈ Set.Icc 0 V

theorem InRange.empty (V : ℚ) : InRange V (ScoreTable.empty : ScoreTable S ℚ α m) :=
  ⟨_, Represents.empty, fun k s h => by cases h⟩

theorem InRange.feedback {V : ℚ} {t : ScoreTable S ℚ α m} (h : InRange V t) (k : α) : InRange V (t.feedback k) := by
  obtain ⟨f, hf, hrange⟩ := h
  refine ⟨_, hf.feedback k, fun k' s hs => ?_⟩
  rw [update_apply] at hs
  split at hs
  · obtain ⟨old, hold, rfl⟩ := Option.map_eq_some_iff.1 hs
    obtain ⟨h0, hV⟩ := hrange k old hold
    constructor
    · positivity
    · norm_num
      linarith
  · exact hrange k' s hs

theorem InRange.prune {V : ℚ} {t : ScoreTable S ℚ α m} (h : InRange V t) (num : Nat) :
    ∃ t', t.prune num = .ok t' ∧ InRange V t' := by
  obtain ⟨f, hf, hrange⟩ := h
  obtain ⟨t', f', e, hf', hsub, -⟩ := hf.prune num
  refine ⟨t', e, f', hf', fun k s hs => ?_⟩
  rcases hsub k with hk | hk
  · exact hrange k s (by rw [← hk, hs])
  · rw [hk] at hs
    cases hs

theorem InRange.updateScores {V : ℚ} {t : ScoreTable S ℚ α m} (h : InRange V t) {key : QoSTransactionMeta ℚ → α}
    {txs : List (QoSTransactionMeta ℚ)} (hcount : ∀ k, (valuesOf key txs k).length < 2 ^ 32)
    (hvalues : ∀ tx ∈ txs, tx.value ∈ Set.Icc 0 V) : InRange V (t.updateScores (Candidates.collect key txs)) := by
  obtain ⟨f, hf, hrange⟩ := h
  obtain ⟨f', hf', hstep, -⟩ := hf.updateScores (Candidates.collect key txs)
  have hmean : ∀ k, 5 ≤ (valuesOf key txs k).length → mean (valuesOf key txs k) ∈ Set.Icc 0 V := by
    intro k hk
    refine mean_mem (List.ne_nil_of_length_pos (by omega)) fun v hv => ?_
    obtain ⟨tx, htx, rfl⟩ := List.mem_map.1 hv
    exact hvalues tx (List.mem_of_mem_filter htx)
  refine ⟨f', hf', fun k s hs => ?_⟩
  rcases hstep k with hk | ⟨c, hc, hge, -, hk⟩
  · rw [hk] at hs
    obtain ⟨old, hold, rfl⟩ := Option.map_eq_some_iff.1 hs
    refine ema_mem (hrange k old hold) ?_
    rw [target_eq _ (hcount k)]
    split
    · rename_i hk'
      exact hmean k hk'
    · rcases hf.median with ⟨hempty, -⟩ | ⟨k', hk'⟩
      · have hmem : k ∈ S.keys t.score := by
          rw [S.mem_keys, hf.score, hold]
          rfl
        rw [hempty] at hmem
        cases hmem
      · rw [hf.score] at hk'
        exact hrange k' _ hk'
  · rw [hk] at hs
    cases hs
    rw [collect_get] at hc
    rw [candidateOf_mean hc (hcount k)]
    exact hmean k ((candidateOf_five hc (hcount k)).1 hge)

end ScoreTable

/-! ## Runs of the model -/

def ModelOp.values : ModelOp ℚ → List ℚ
  | .updateModel txs _ _ => txs.map QoSTransactionMeta.value
  | _ => []

/-- The calls the scores of a model rest on: batches of non-negative values, feedback and pruning. -/
def ModelOp.nonneg : ModelOp ℚ → Prop
  | .updateModel txs _ _ => ∀ tx ∈ txs, 0 ≤ tx.value
  | .prune _ _ => True
  | .ipFeedback _ => True
  | .addIpScore _ _ => False
  | .addSignerScore _ _ => False

/-- No key of a batch has more transactions than a `u32` counts. -/
def ModelOp.countable : ModelOp ℚ → Prop
  | .updateModel txs _ _ => (∀ ip, (valuesOf QoSTransactionMeta.ip txs ip).length < 2 ^ 32) ∧
      ∀ signer, (valuesOf QoSTransactionMeta.signer txs signer).length < 2 ^ 32
  | _ => True

def largestValue (ops : List (ModelOp ℚ)) : ℚ := (ops.flatMap ModelOp.values).foldr max 0

theorem le_foldr_max {l : List ℚ} {v : ℚ} (h : v ∈ l) : v ≤ l.foldr max 0 := by
  induction l with
  | nil => cases h
  | cons w ws ih =>
    rcases List.mem_cons.1 h with rfl | h
    · exact le_max_left _ _
    · exact le_trans (ih h) (le_max_right _ _)

theorem foldr_max_le {l : List ℚ} {V : ℚ} (h0 : 0 ≤ V) (h : ∀ v ∈ l, v ≤ V) : l.foldr max 0 ≤ V := by
  induction l with
  | nil => exact h0
  | cons w ws ih => exact max_le (h w (by simp)) (ih fun v hv => h v (by simp [hv]))

def IpSignerModel.InRange (V : ℚ) (model : IpSignerModel S ℚ maxSigners maxIps) : Prop :=
  ScoreTable.InRange V model.ip ∧ ScoreTable.InRange V model.signer

theorem IpSignerModel.InRange.prune {V : ℚ} {model : IpSignerModel S ℚ maxSigners maxIps} (h : model.InRange V)
    (numIps numSigners : Nat) : ∃ model', model.prune numIps numSigners = .ok model' ∧ model'.InRange V := by
  obtain ⟨ip, eip, hip⟩ := h.1.prune numIps
  obtain ⟨signer, esigner, hsigner⟩ := h.2.prune numSigners
  exact ⟨⟨signer, ip⟩, IpSignerModel.prune_ok eip esigner, hip, hsigner⟩

theorem IpSignerModel.InRange.step {V : ℚ} {model : IpSignerModel S ℚ maxSigners maxIps} (h : model.InRange V)
    {op : ModelOp ℚ} (hop : op.nonneg) (hcount : op.countable) (hV : ∀ v ∈ op.values, v ≤ V) :
    ∃ o model', model.step op = .ok (o, model') ∧ model'.InRange V := by
  cases op with
  | updateModel txs pruneSigners pruneIps =>
    have hvalues : ∀ tx ∈ txs, tx.value ∈ Set.Icc 0 V := fun tx htx => ⟨hop tx htx, hV _ (List.mem_map_of_mem htx)⟩
    have hunpruned : (model.unpruned txs).InRange V :=
      ⟨h.1.updateScores hcount.1 hvalues, h.2.updateScores hcount.2 hvalues⟩
    obtain ⟨model', e, h'⟩ := hunpruned.prune pruneIps pruneSigners
    exact ⟨(), model', by simp only [IpSignerModel.step, IpSignerModel.updateModel_eq, e, ok_bind]; rfl, h'⟩
  | prune numIps numSigners =>
    obtain ⟨model', e, h'⟩ := h.prune numIps numSigners
    exact ⟨(), model', by simp only [IpSignerModel.step, e, ok_bind]; rfl, h'⟩
  | ipFeedback ip => exact ⟨(), _, rfl, h.1.feedback ip, h.2⟩
  | addIpScore ip score => exact hop.elim
  | addSignerScore signer score => exact hop.elim

theorem ScoreTable.InRange.getD {V : ℚ} {t : ScoreTable S ℚ α m} (h : InRange V t) (k : α) :
    (S.get t.score k).getD t.approximateMedian ∈ Set.Icc 0 (max 1 V) := by
  obtain ⟨f, hf, hrange⟩ := h
  have hwide : ∀ k s, S.get t.score k = some s → s ∈ Set.Icc 0 (max 1 V) := by
    intro k s hs
    rw [hf.score] at hs
    exact ⟨(hrange k s hs).1, le_trans (hrange k s hs).2 (le_max_right _ _)⟩
  cases hk : S.get t.score k with
  | some s => exact hwide k s hk
  | none =>
    rcases hf.median with ⟨-, hone⟩ | ⟨k', hk'⟩
    · rw [Option.getD_none, hone]
      exact ⟨zero_le_one, le_max_left _ _⟩
    · exact hwide k' _ hk'

/-- **Scores stay in the range of the values they are made of.**  In every run of batches, feedback and pruning from the
empty model, with `V` the largest value of the run so far: no call panics, the scores lie between 0 and `V`, each fallback
is 1 for an empty table or a live score, and `forward` lies between 0 and the square of `V` or of 1. -/
theorem scores_inRange (ops : List (ModelOp ℚ)) (hops : ∀ op ∈ ops, op.nonneg) (hcount : ∀ op ∈ ops, op.countable) :
    ∃ os model, run IpSignerModel.step (IpSignerModel.new [] [] : IpSignerModel S ℚ maxSigners maxIps) ops =
        .ok (os, model) ∧
      (∀ ip s, S.get model.ip.score ip = some s → 0 ≤ s ∧ s ≤ largestValue ops) ∧
      (∀ signer s, S.get model.signer.score signer = some s → 0 ≤ s ∧ s ≤ largestValue ops) ∧
      LiveMedian model.ip ∧ LiveMedian model.signer ∧
      ∀ ip signer, 0 ≤ model.forward ip signer ∧ model.forward ip signer ≤ max 1 (largestValue ops) ^ 2 := by
  have hV : ∀ op ∈ ops, ∀ v ∈ op.values, v ≤ largestValue ops :=
    fun op hop v hv => le_foldr_max (List.mem_flatMap.2 ⟨op, hop, hv⟩)
  generalize largestValue ops = V at hV
  obtain ⟨os, model, e, hip, hsigner⟩ := run_total
    (fun op => op.nonneg ∧ op.countable ∧ ∀ v ∈ op.values, v ≤ V) (IpSignerModel.InRange V)
    (fun model op hop h => h.step hop.1 hop.2.1 hop.2.2) ops
    (IpSignerModel.new [] [] : IpSignerModel S ℚ maxSigners maxIps)
    (fun op hop => ⟨hops op hop, hcount op hop, hV op hop⟩) ⟨InRange.empty V, InRange.empty V⟩
  have hforward : ∀ ip signer, 0 ≤ model.forward ip signer ∧ model.forward ip signer ≤ max 1 V ^ 2 := by
    intro ip signer
    obtain ⟨h0, h1⟩ := hip.getD ip
    obtain ⟨h0', h1'⟩ := hsigner.getD signer
    unfold IpSignerModel.forward
    constructor
    · exact mul_nonneg h0 h0'
    · rw [pow_two]
      exact mul_le_mul h1 h1' h0' (le_trans h0 h1)
  obtain ⟨f, hf, hf'⟩ := hip
  obtain ⟨g, hg, hg'⟩ := hsigner
  refine ⟨os, model, e, fun ip s hs => ?_, fun signer s hs => ?_, hf.median, hg.median, hforward⟩
  · rw [hf.score] at hs
    exact hf' ip s hs
  · rw [hg.score] at hs
    exact hg' signer s hs

theorem nonneg_flood (n pruneSigners pruneIps : Nat) : (ModelOp.updateModel (flood n) pruneSigners pruneIps).nonneg := by
  intro tx htx
  rw [List.eq_of_mem_replicate htx]
  exact zero_le_one

/-- A batch, a failed verification and a prune. -/
theorem scores_inRange_three :
    ∃ os model, run IpSignerModel.step (IpSignerModel.new [] [] : IpSignerModel sortedTree ℚ 16 16)
        [.updateModel (flood 5) 4 4, .ipFeedback 1, .prune 1 1] = .ok (os, model) ∧
      ∀ ip s, sortedTree.get model.ip.score ip = some s → 0 ≤ s ∧
        s ≤ largestValue [.updateModel (flood 5) 4 4, .ipFeedback 1, .prune 1 1] := by
  have hshort : (ModelOp.updateModel (flood 5) 4 4).countable :=
    ⟨fun ip => lt_of_le_of_lt (length_valuesOf_le _ _ ip) (by decide),
      fun signer => lt_of_le_of_lt (length_valuesOf_le _ _ signer) (by decide)⟩
  obtain ⟨os, model, e, hips, -⟩ := @scores_inRange sortedTree 16 16
    [.updateModel (flood 5) 4 4, .ipFeedback 1, .prune 1 1]
    (by simpa [ModelOp.nonneg] using nonneg_flood 5 4 4) (by simpa [ModelOp.countable] using hshort)
  exact ⟨os, model, e, hips⟩

theorem updateModel_flood {n : Nat} (hn : n ≠ 0) (hwrap : 5 ≤ UInt32.ofNat n) (hm : 1 ≤ S.capacity maxIps)
    (hips : S.capacity maxIps ≤ maxIps) (hsigners : S.capacity maxSigners ≤ maxSigners) :
    ∃ model, (IpSignerModel.new [] [] : IpSignerModel S ℚ maxSigners maxIps).updateModel (flood n) maxSigners maxIps =
        .ok model ∧ S.get model.ip.score 1 = some ((n : ℚ) / (UInt32.ofNat n).toNat) := by
  obtain ⟨f, hf, -⟩ := (Represents.empty (S := S) (F := ℚ) (m := maxIps)).updateScores
    (Candidates.collect QoSTransactionMeta.ip (flood n))
  obtain ⟨g, hg, -⟩ := (Represents.empty (S := S) (F := ℚ) (m := maxSigners)).updateScores
    (Candidates.collect QoSTransactionMeta.signer (flood n))
  have hscore := updateScores_replicate (S := S) QoSTransactionMeta.ip hn ⟨1, ⟨Vector.replicate 32 1⟩, 1⟩ hm
  refine ⟨(IpSignerModel.new [] []).unpruned (flood n), ?_, ?_⟩
  · exact IpSignerModel.prune_ok (prune_of_le (le_trans hf.bounded hips)) (prune_of_le (le_trans hg.bounded hsigners))
  · rw [if_pos hwrap, mul_one] at hscore
    exact hscore

theorem largestValue_flood (n pruneSigners pruneIps : Nat) :
    largestValue [.updateModel (flood n) pruneSigners pruneIps] ≤ 1 := by
  refine foldr_max_le zero_le_one fun v hv => ?_
  obtain ⟨op, hop, hv⟩ := List.mem_flatMap.1 hv
  rw [List.mem_singleton.1 hop] at hv
  obtain ⟨tx, htx, rfl⟩ := List.mem_map.1 hv
  rw [List.eq_of_mem_replicate htx]

/-- Five transactions more than the counter holds: one sender of value 1 scores `(2 ^ 32 + 5) / 5`. -/
theorem scores_wrap :
    ∃ os model, run IpSignerModel.step (IpSignerModel.new [] [] : IpSignerModel sortedTree ℚ 16384 16384)
        [.updateModel (flood (2 ^ 32 + 5)) 16384 16384] = .ok (os, model) ∧
      (ModelOp.updateModel (flood (2 ^ 32 + 5)) 16384 16384).nonneg ∧
      ∃ s, sortedTree.get model.ip.score 1 = some s ∧
        largestValue [.updateModel (flood (2 ^ 32 + 5)) 16384 16384] < s := by
  obtain ⟨model, e, hs⟩ := @updateModel_flood sortedTree 16384 16384 (2 ^ 32 + 5) (by norm_num)
    (by decide) (by decide) (by decide) (by decide)
  have hcount : (UInt32.ofNat (2 ^ 32 + 5)).toNat = 5 := by decide
  rw [hcount] at hs
  refine ⟨[()], model, ?_, nonneg_flood _ _ _, _, hs, lt_of_le_of_lt (largestValue_flood _ _ _) (by norm_num)⟩
  unfold run
  simp only [IpSignerModel.step, e, ok_bind]
  rfl

end Qos
