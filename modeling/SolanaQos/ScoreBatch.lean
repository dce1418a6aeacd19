import SolanaQos.ScoreMirror
/-!
# What a batch computes (`update_model` in `model/src/models/ip_signer.rs`)

The grouping loop leaves, for each key, the number and the sum of that key's values and nothing else (`collect_get`).
A permutation of the batch therefore changes no candidate (`collect_perm`), and every tree operation that follows reads
the candidates only (`updateScores_congr`), so it changes no tree either (`updateModel_perm`), pruning included: the
trees are any that are determined by what was done to them.

Over the rationals, a tracked key takes the moving average of its score and the mean of its values, and an untracked
key with at least five transactions its mean (`Averages`); what is then pruned loses entries and rewrites none
(`Prunes`).  `updateModel_averages` states this of both tables, for batches in which no key has more transactions than
a `u32` counts.  Beyond that the count wraps: a sender of `2 ^ 32` transactions in one batch is not scored at all
(`not_averages_flood`, `updateModel_wraps`).

`newKeys` are the keys that a batch can add to a table, and the unit in which room is counted elsewhere.
-/
namespace Qos

open Runs Function

variable {S : Sokoban} {F α : Type} {m : Nat} [LinearOrder F] [LinearOrder α]

/-! ## The candidates -/

def valuesOf (key : QoSTransactionMeta F → α) (txs : List (QoSTransactionMeta F)) (k : α) : List F :=
  (txs.filter fun tx => key tx = k).map QoSTransactionMeta.value

def candidateOf [Add F] : List F → Option (ScoreUpdateCandidate F)
  | [] => none
  | v :: vs => some (vs.foldl ScoreUpdateCandidate.update (.new v))

omit [LinearOrder F] in
theorem candidateOf_append [Add F] (l : List F) (v : F) :
    candidateOf (l ++ [v]) = some (match candidateOf l with
      | some c => c.update v
      | none => .new v) := by
  cases l with
  | nil => rfl
  | cons w ws => simp [candidateOf, List.foldl_append]

omit [LinearOrder F] in
theorem addTransaction_get [Add F] (cs : Candidates F α) (key : α) (v : F) (k : α) :
    (cs.addTransaction key v)[k]? = if k = key then some (match cs[k]? with
      | some c => c.update v
      | none => .new v) else cs[k]? := by
  unfold Candidates.addTransaction
  rw [Std.TreeMap.getElem?_alter]
  by_cases h : k = key
  · subst h
    rw [if_pos (compare_eq_iff_eq.2 rfl), if_pos rfl]
    cases cs[k]? <;> rfl
  · rw [if_neg (fun he => h (compare_eq_iff_eq.1 he).symm), if_neg h]

omit [LinearOrder F] in
theorem collect_get [Add F] (key : QoSTransactionMeta F → α) (txs : List (QoSTransactionMeta F)) (k : α) :
    (Candidates.collect key txs)[k]? = candidateOf (valuesOf key txs k) := by
  induction txs using List.reverseRecOn with
  | nil => exact Std.TreeMap.getElem?_emptyc
  | append_singleton txs tx ih =>
    have hfold : Candidates.collect key (txs ++ [tx]) = (Candidates.collect key txs).addTransaction (key tx) tx.value := by
      unfold Candidates.collect
      rw [List.foldl_append]
      rfl
    rw [hfold, addTransaction_get, ih]
    unfold valuesOf
    rw [List.filter_append, List.map_append]
    by_cases h : key tx = k
    · rw [if_pos h.symm, List.filter_cons_of_pos (by simpa using h)]
      exact (candidateOf_append _ _).symm
    · rw [if_neg (Ne.symm h), List.filter_cons_of_neg (by simpa using h)]
      simp

omit [LinearOrder F] in
theorem candidateOf_eq_none [Add F] {l : List F} : candidateOf l = none ↔ l = [] := by
  cases l with
  | nil => exact iff_of_true rfl rfl
  | cons v vs =>
    constructor
    · intro h
      cases h
    · intro h
      cases h

omit [LinearOrder F] in
theorem candidateOf_count [Add F] {l : List F} {c : ScoreUpdateCandidate F} (h : candidateOf l = some c) :
    c.count = UInt32.ofNat l.length := by
  induction l using List.reverseRecOn generalizing c with
  | nil => cases h
  | append_singleton l v ih =>
    rw [candidateOf_append] at h
    cases h
    rw [List.length_append, List.length_singleton, UInt32.ofNat_add]
    cases hl : candidateOf l with
    | none =>
      rw [candidateOf_eq_none.1 hl]
      rfl
    | some c' =>
      rw [← ih hl]
      rfl

theorem candidateOf_sum {l : List ℚ} {c : ScoreUpdateCandidate ℚ} (h : candidateOf l = some c) :
    c.scoreSum = l.sum := by
  induction l using List.reverseRecOn generalizing c with
  | nil => cases h
  | append_singleton l v ih =>
    rw [candidateOf_append] at h
    cases h
    rw [List.sum_append, List.sum_singleton]
    cases hl : candidateOf l with
    | none =>
      rw [candidateOf_eq_none.1 hl, List.sum_nil, zero_add]
      rfl
    | some c' =>
      rw [← ih hl]
      rfl

/-! ## The order of a batch -/

theorem candidateOf_perm {l l' : List ℚ} (h : l.Perm l') : candidateOf l = candidateOf l' := by
  cases hl : candidateOf l with
  | none =>
    rw [candidateOf_eq_none] at hl
    subst hl
    rw [List.nil_perm.1 h]
    rfl
  | some c =>
    cases hl' : candidateOf l' with
    | none =>
      rw [candidateOf_eq_none] at hl'
      subst hl'
      rw [List.perm_nil.1 h] at hl
      cases hl
    | some c' =>
      have hsum : c.scoreSum = c'.scoreSum := by rw [candidateOf_sum hl, candidateOf_sum hl', h.sum_eq]
      have hcount : c.count = c'.count := by rw [candidateOf_count hl, candidateOf_count hl', h.length_eq]
      cases c
      cases c'
      cases hsum
      cases hcount
      rfl

theorem collect_perm (key : QoSTransactionMeta ℚ → α) {txs txs' : List (QoSTransactionMeta ℚ)} (h : txs.Perm txs') :
    (Candidates.collect key txs).Equiv (Candidates.collect key txs') := by
  refine Std.TreeMap.Equiv.of_forall_constGet?_eq fun k => ?_
  rw [collect_get, collect_get]
  exact candidateOf_perm ((h.filter _).map _)

namespace ScoreTable

section Congr

variable [One F] [Add F] [Sub F] [Mul F] [Div F] [NatCast F] [OfScientific F]

theorem updateTracked_congr (median : F) : ∀ (l : List α) (t : ScoreTable S F α m) {cands cands' : Candidates F α},
    cands.Equiv cands' →
    (l.foldl (updateTracked median) (t, cands)).1 = (l.foldl (updateTracked median) (t, cands')).1 ∧
      (l.foldl (updateTracked median) (t, cands)).2.Equiv (l.foldl (updateTracked median) (t, cands')).2
  | [], t, cands, cands', h => ⟨rfl, h⟩
  | k :: l, t, cands, cands', h => by
    rw [List.foldl_cons, List.foldl_cons]
    cases hget : S.get t.score k with
    | none =>
      simp only [updateTracked, hget]
      exact updateTracked_congr median l t h
    | some score =>
      simp only [updateTracked, hget, h.getElem?_eq]
      exact updateTracked_congr median l _ (h.erase k)

/-- **The trees a batch leaves depend on the candidates only as a map.** -/
theorem updateScores_congr (t : ScoreTable S F α m) {cands cands' : Candidates F α} (h : cands.Equiv cands') :
    t.updateScores cands = t.updateScores cands' := by
  obtain ⟨ht, hrest⟩ := updateTracked_congr t.approximateMedian (S.keys t.score) t h
  unfold updateScores
  simp only [ht, hrest.toList_eq]

end Congr

theorem pruneLoop_total : ∀ (n : Nat) (t : ScoreTable S F α m), n ≤ (S.keys t.inverse).length →
    ∃ t', pruneLoop n t = .ok t'
  | 0, t, _ => ⟨t, rfl⟩
  | n + 1, t, hn => by
    obtain ⟨e, inverse, -, hlen, heq⟩ := pruneLoop_succ hn
    obtain ⟨t', e'⟩ := pruneLoop_total n ⟨S.remove t.score (ofLex e).2, inverse⟩ (by simp only; omega)
    exact ⟨t', heq.trans e'⟩

end ScoreTable

variable {maxSigners maxIps : Nat}

theorem IpSignerModel.prune_total (model : IpSignerModel S F maxSigners maxIps) (numIps numSigners : Nat) :
    ∃ model', model.prune numIps numSigners = .ok model' := by
  obtain ⟨ip, hip⟩ := ScoreTable.pruneLoop_total _ model.ip (Nat.sub_le (S.keys model.ip.inverse).length numIps)
  obtain ⟨signer, hsigner⟩ := ScoreTable.pruneLoop_total _ model.signer
    (Nat.sub_le (S.keys model.signer.inverse).length numSigners)
  exact ⟨⟨signer, ip⟩, IpSignerModel.prune_ok hip hsigner⟩

/-- The model between the update loops and the pruning. -/
def IpSignerModel.unpruned [One F] [Add F] [Sub F] [Mul F] [Div F] [NatCast F] [OfScientific F]
    (model : IpSignerModel S F maxSigners maxIps) (txs : List (QoSTransactionMeta F)) :
    IpSignerModel S F maxSigners maxIps :=
  ⟨model.signer.updateScores (Candidates.collect QoSTransactionMeta.signer txs),
    model.ip.updateScores (Candidates.collect QoSTransactionMeta.ip txs)⟩

theorem IpSignerModel.updateModel_eq [One F] [Add F] [Sub F] [Mul F] [Div F] [NatCast F] [OfScientific F]
    (model : IpSignerModel S F maxSigners maxIps) (txs : List (QoSTransactionMeta F)) (pruneSigners pruneIps : Nat) :
    model.updateModel txs pruneSigners pruneIps = (model.unpruned txs).prune pruneIps pruneSigners := rfl

/-- **The order of a batch does not matter**: whatever the model holds, a permutation of the transactions leaves the very
same four trees, and so the same scores for tracked and untracked sources alike. -/
theorem updateModel_perm {txs txs' : List (QoSTransactionMeta ℚ)} (h : txs.Perm txs')
    (model : IpSignerModel S ℚ maxSigners maxIps) (pruneSigners pruneIps : Nat) :
    ∃ after after', model.updateModel txs pruneSigners pruneIps = .ok after ∧
      model.updateModel txs' pruneSigners pruneIps = .ok after' ∧
      (∀ ip, S.get after.ip.score ip = S.get after'.ip.score ip) ∧
      (∀ signer, S.get after.signer.score signer = S.get after'.signer.score signer) ∧
      ∀ ip signer, after.forward ip signer = after'.forward ip signer := by
  have hsame : model.unpruned txs = model.unpruned txs' := by
    unfold IpSignerModel.unpruned
    rw [ScoreTable.updateScores_congr _ (collect_perm QoSTransactionMeta.signer h),
      ScoreTable.updateScores_congr _ (collect_perm QoSTransactionMeta.ip h)]
  obtain ⟨after, hafter⟩ := (model.unpruned txs).prune_total pruneIps pruneSigners
  refine ⟨after, after, hafter, ?_, fun _ => rfl, fun _ => rfl, fun _ _ => rfl⟩
  rw [IpSignerModel.updateModel_eq, ← hsame]
  exact hafter

/-- Six transactions of two senders, in two orders. -/
theorem updateModel_perm_two :
    ∃ after after', (IpSignerModel.new [] [] : IpSignerModel sortedTree ℚ 16 16).updateModel
        (⟨1, ⟨Vector.replicate 32 1⟩, 8⟩ :: List.replicate 5 ⟨2, ⟨Vector.replicate 32 2⟩, 3⟩) 4 4 = .ok after ∧
      (IpSignerModel.new [] [] : IpSignerModel sortedTree ℚ 16 16).updateModel
        (List.replicate 5 ⟨2, ⟨Vector.replicate 32 2⟩, 3⟩ ++ [⟨1, ⟨Vector.replicate 32 1⟩, 8⟩]) 4 4 = .ok after' ∧
      ∀ ip signer, after.forward ip signer = after'.forward ip signer := by
  obtain ⟨after, after', h, h', -, -, hforward⟩ := updateModel_perm
    (List.perm_append_singleton ⟨1, ⟨Vector.replicate 32 1⟩, 8⟩
      (List.replicate 5 (⟨2, ⟨Vector.replicate 32 2⟩, 3⟩ : QoSTransactionMeta ℚ))).symm
    (IpSignerModel.new [] [] : IpSignerModel sortedTree ℚ 16 16) 4 4
  exact ⟨after, after', h, h', hforward⟩

/-! ## The moving average -/

def mean (l : List ℚ) : ℚ := l.sum / l.length

omit [LinearOrder F] in
theorem candidateOf_toNat [Add F] {l : List F} {c : ScoreUpdateCandidate F} (h : candidateOf l = some c)
    (hl : l.length < 2 ^ 32) : c.count.toNat = l.length := by
  rw [candidateOf_count h, UInt32.toNat_ofNat', Nat.mod_eq_of_lt hl]

omit [LinearOrder F] in
theorem candidateOf_five [Add F] {l : List F} {c : ScoreUpdateCandidate F} (h : candidateOf l = some c)
    (hl : l.length < 2 ^ 32) : 5 ≤ c.count ↔ 5 ≤ l.length := by
  rw [UInt32.le_iff_toNat_le, candidateOf_toNat h hl]
  rfl

theorem candidateOf_mean {l : List ℚ} {c : ScoreUpdateCandidate ℚ} (h : candidateOf l = some c) (hl : l.length < 2 ^ 32) :
    c.finalize = mean l := by
  unfold ScoreUpdateCandidate.finalize mean
  rw [candidateOf_toNat h hl, candidateOf_sum h]

omit [LinearOrder F] in
theorem mem_of_valuesOf {key : QoSTransactionMeta F → α} {txs : List (QoSTransactionMeta F)} {k : α}
    (h : valuesOf key txs k ≠ []) : k ∈ txs.map key := by
  obtain ⟨v, hv⟩ := List.exists_mem_of_ne_nil _ h
  obtain ⟨tx, htx, -⟩ := List.mem_map.1 hv
  obtain ⟨hmem, hkey⟩ := List.mem_filter.1 htx
  exact List.mem_map.2 ⟨tx, hmem, of_decide_eq_true hkey⟩

omit [LinearOrder F] in
theorem mem_of_collect [Add F] {key : QoSTransactionMeta F → α} {txs : List (QoSTransactionMeta F)} {k : α}
    {c : ScoreUpdateCandidate F} (h : (Candidates.collect key txs)[k]? = some c) : k ∈ txs.map key := by
  rw [collect_get] at h
  apply mem_of_valuesOf
  intro hnil
  rw [hnil] at h
  cases h

omit [LinearOrder F] in
theorem length_valuesOf_le (key : QoSTransactionMeta F → α) (txs : List (QoSTransactionMeta F)) (k : α) :
    (valuesOf key txs k).length ≤ txs.length := by
  unfold valuesOf
  rw [List.length_map]
  exact List.length_filter_le _ _

namespace ScoreTable

def newKeys (t : ScoreTable S F α m) (key : QoSTransactionMeta F → α) (txs : List (QoSTransactionMeta F)) : Finset α :=
  (txs.map key).toFinset.filter fun k => (S.get t.score k).isNone ∧ 5 ≤ (valuesOf key txs k).length

theorem mem_newKeys {t : ScoreTable S F α m} {key : QoSTransactionMeta F → α} {txs : List (QoSTransactionMeta F)} {k : α} :
    k ∈ t.newKeys key txs ↔ S.get t.score k = none ∧ 5 ≤ (valuesOf key txs k).length := by
  unfold newKeys
  rw [Finset.mem_filter, List.mem_toFinset, Option.isNone_iff_eq_none]
  refine ⟨fun h => h.2, fun h => ⟨mem_of_valuesOf (List.ne_nil_of_length_pos (by omega)), h⟩⟩

theorem Represents.candidate_newKeys [Add F] {t : ScoreTable S F α m} {f : α → Option F} (h : Represents t f)
    {key : QoSTransactionMeta F → α} {txs : List (QoSTransactionMeta F)}
    (hcount : ∀ k, (valuesOf key txs k).length < 2 ^ 32) {k : α} {c : ScoreUpdateCandidate F}
    (hc : (Candidates.collect key txs)[k]? = some c) (hge : 5 ≤ c.count) (hk : f k = none) : k ∈ t.newKeys key txs := by
  rw [collect_get] at hc
  rw [mem_newKeys, h.score]
  exact ⟨hk, (candidateOf_five hc (hcount k)).1 hge⟩

/-- **The moving average**: what a batch makes of the scores of a table. -/
structure Averages (key : QoSTransactionMeta ℚ → α) (txs : List (QoSTransactionMeta ℚ)) (t t' : ScoreTable S ℚ α m) :
    Prop where
  tracked : ∀ k old, S.get t.score k = some old → S.get t'.score k = some (0.95 * old + 0.05 *
    if 5 ≤ (valuesOf key txs k).length then mean (valuesOf key txs k) else t.approximateMedian)
  untracked : ∀ k, S.get t.score k = none → S.get t'.score k =
    if 5 ≤ (valuesOf key txs k).length then some (mean (valuesOf key txs k)) else none

structure Prunes (num : Nat) (t t' : ScoreTable S F α m) : Prop where
  kept : ∀ k s, S.get t'.score k = some s → S.get t.score k = some s
  size : (S.keys t'.score).length = min (S.keys t.score).length num

theorem target_eq (median : ℚ) {key : QoSTransactionMeta ℚ → α} {txs : List (QoSTransactionMeta ℚ)} {k : α}
    (hk : (valuesOf key txs k).length < 2 ^ 32) :
    target median (Candidates.collect key txs) k =
      if 5 ≤ (valuesOf key txs k).length then mean (valuesOf key txs k) else median := by
  unfold target
  rw [collect_get]
  cases hc : candidateOf (valuesOf key txs k) with
  | none =>
    rw [candidateOf_eq_none.1 hc]
    rfl
  | some c =>
    have hcount := candidateOf_five hc hk
    rw [Option.filter_some]
    by_cases h : 5 ≤ c.count
    · rw [if_pos (decide_eq_true h), if_pos (hcount.1 h), Option.map_some, Option.getD_some, candidateOf_mean hc hk]
    · rw [if_neg (by simpa using h), if_neg (hcount.not.1 h)]
      rfl

theorem Represents.averages {t : ScoreTable S ℚ α m} {f : α → Option ℚ} (h : Represents t f)
    {key : QoSTransactionMeta ℚ → α} {txs : List (QoSTransactionMeta ℚ)}
    (hcount : ∀ k, (valuesOf key txs k).length < 2 ^ 32)
    (hroom : (S.keys t.score).length + (t.newKeys key txs).card ≤ S.capacity m) :
    ∃ f', Represents (t.updateScores (Candidates.collect key txs)) f' ∧
      Averages key txs t (t.updateScores (Candidates.collect key txs)) := by
  obtain ⟨f', h', hf', hnew⟩ := h.updateScores (Candidates.collect key txs)
  have hfresh : ∀ k c, (Candidates.collect key txs)[k]? = some c → 5 ≤ c.count → f k = none →
      f' k = some c.finalize :=
    hnew (t.newKeys key txs) (fun k c => h.candidate_newKeys hcount) (by rw [h.tracks.length_eq]; exact hroom)
  simp only [collect_get] at hf' hfresh
  refine ⟨f', h', fun k old hold => ?_, fun k hk => ?_⟩
  · rw [h.score] at hold
    rw [h'.score]
    rcases hf' k with he | ⟨c, -, -, hn, -⟩
    · rw [he, hold, Option.map_some, target_eq _ (hcount k)]
      generalize (if 5 ≤ (valuesOf key txs k).length then mean (valuesOf key txs k) else t.approximateMedian) = new
      rw [ema, Option.some_inj]
      ring
    · rw [hold] at hn
      cases hn
  · rw [h.score] at hk
    rw [h'.score]
    by_cases hlen : 5 ≤ (valuesOf key txs k).length
    · obtain ⟨c, hc⟩ := Option.ne_none_iff_exists'.1
        (candidateOf_eq_none.not.2 (List.ne_nil_of_length_pos (by omega : 0 < (valuesOf key txs k).length)))
      rw [if_pos hlen, hfresh k c hc ((candidateOf_five hc (hcount k)).2 hlen) hk, candidateOf_mean hc (hcount k)]
    · rw [if_neg hlen]
      rcases hf' k with he | ⟨c, hc, hge, -⟩
      · rw [he, hk, Option.map_none]
      · exact absurd ((candidateOf_five hc (hcount k)).1 hge) hlen

theorem Tracks.prunes {t : ScoreTable S F α m} {f : α → Option F} (h : Tracks t f) (num : Nat) :
    ∃ t' f', t.prune num = .ok t' ∧ Tracks t' f' ∧ Prunes num t t' := by
  obtain ⟨t', f', e, h', hsub, hlen⟩ := h.pruneLoop ((S.keys t.inverse).length - num) (Nat.sub_le _ _)
  refine ⟨t', f', e, h', fun k s hs => ?_, ?_⟩
  · rw [h'.score] at hs
    rw [h.score]
    rcases hsub k with hk | hk
    · rw [← hk, hs]
    · rw [hk] at hs
      cases hs
  · rw [← h.length_eq, ← h'.length_eq]
    omega

end ScoreTable

open ScoreTable

/-! ## One sender -/

omit [LinearOrder F] in
theorem valuesOf_replicate (key : QoSTransactionMeta F → α) (n : Nat) (tx : QoSTransactionMeta F) :
    valuesOf key (List.replicate n tx) (key tx) = List.replicate n tx.value := by
  unfold valuesOf
  rw [List.filter_replicate_of_pos (by simp), List.map_replicate]

theorem card_newKeys_replicate (t : ScoreTable S F α m) (key : QoSTransactionMeta F → α) (n : Nat)
    (tx : QoSTransactionMeta F) : (t.newKeys key (List.replicate n tx)).card ≤ 1 := by
  refine le_trans (Finset.card_le_card (t := {key tx}) fun k hk => ?_) (le_of_eq (Finset.card_singleton _))
  have hmem := List.mem_toFinset.1 (Finset.mem_of_mem_filter k hk)
  rw [List.map_replicate] at hmem
  exact Finset.mem_singleton.2 (List.eq_of_mem_replicate hmem)

theorem ScoreTable.updateScores_replicate (key : QoSTransactionMeta ℚ → α) {n : Nat} (hn : n ≠ 0)
    (tx : QoSTransactionMeta ℚ) (hm : 1 ≤ S.capacity m) :
    S.get ((ScoreTable.empty : ScoreTable S ℚ α m).updateScores (Candidates.collect key (List.replicate n tx))).score
        (key tx) =
      if 5 ≤ UInt32.ofNat n then some (n * tx.value / (UInt32.ofNat n).toNat) else none := by
  obtain ⟨f', h', hf', hnew⟩ := (Represents.empty (S := S) (F := ℚ) (α := α) (m := m)).updateScores
    (Candidates.collect key (List.replicate n tx))
  obtain ⟨c, hc⟩ := Option.ne_none_iff_exists'.1 fun hc : candidateOf (List.replicate n tx.value) = none =>
    hn ((List.replicate_eq_nil_iff _).1 (candidateOf_eq_none.1 hc))
  have hcount : c.count = UInt32.ofNat n := by rw [candidateOf_count hc, List.length_replicate]
  have hsum : c.scoreSum = n * tx.value := by rw [candidateOf_sum hc, List.sum_replicate, nsmul_eq_mul]
  have hget : (Candidates.collect key (List.replicate n tx))[key tx]? = some c := by
    rw [collect_get, valuesOf_replicate, hc]
  rw [h'.score, ← hcount]
  by_cases hge : 5 ≤ c.count
  · have hempty : (S.keys (ScoreTable.empty : ScoreTable S ℚ α m).inverse).length = 0 := Sokoban.length_new
    rw [if_pos hge, hnew {key tx} (fun k c hk _ _ => ?_) (by rw [hempty, Finset.card_singleton]; omega) (key tx) c hget hge
      rfl, ScoreUpdateCandidate.finalize, hsum]
    rw [Finset.mem_singleton]
    by_contra hne
    have hnil : valuesOf key (List.replicate n tx) k = [] := by
      unfold valuesOf
      rw [List.filter_replicate_of_neg (by simpa using Ne.symm hne), List.map_nil]
    rw [collect_get, hnil] at hk
    cases hk
  · rw [if_neg hge]
    rcases hf' (key tx) with he | ⟨c', hc', hge', -⟩
    · exact he
    · rw [hget] at hc'
      cases hc'
      exact absurd hge' hge

/-- A sender of one transaction over and over: a batch as long as the `u32` counter has values. -/
def flood (n : Nat) : List (QoSTransactionMeta ℚ) := List.replicate n ⟨1, ⟨Vector.replicate 32 1⟩, 1⟩

theorem not_averages_flood {n : Nat} (hn : 5 ≤ n) (hwrap : ¬ 5 ≤ UInt32.ofNat n) (hm : 1 ≤ S.capacity maxIps) :
    ¬ Averages QoSTransactionMeta.ip (flood n) (IpSignerModel.new [] [] : IpSignerModel S ℚ maxSigners maxIps).ip
      ((IpSignerModel.new [] [] : IpSignerModel S ℚ maxSigners maxIps).unpruned (flood n)).ip := by
  intro h
  have hscore := updateScores_replicate (S := S) QoSTransactionMeta.ip (n := n) (by omega)
    ⟨1, ⟨Vector.replicate 32 1⟩, 1⟩ hm
  have hmean := h.untracked 1 (S.get_new 1)
  have hvalues : valuesOf QoSTransactionMeta.ip (flood n) 1 = List.replicate n 1 := valuesOf_replicate _ _ _
  rw [hvalues, List.length_replicate, if_pos hn] at hmean
  rw [if_neg hwrap] at hscore
  exact absurd (hmean.symm.trans hscore) (by simp)

/-- **A batch computes the moving average.**  Where the trees have room for every new key with at least five
transactions, and no key has more transactions than a `u32` counts: before pruning, tracked keys have moved towards
their mean or the old median and the new keys are at their mean; pruning deletes down to the limits. -/
theorem updateModel_averages (model : IpSignerModel S ℚ maxSigners maxIps) (hip : Mirrors model.ip)
    (hsigner : Mirrors model.signer) (txs : List (QoSTransactionMeta ℚ)) (pruneSigners pruneIps : Nat)
    (hips : ∀ ip, (valuesOf QoSTransactionMeta.ip txs ip).length < 2 ^ 32)
    (hsigners : ∀ signer, (valuesOf QoSTransactionMeta.signer txs signer).length < 2 ^ 32)
    (hroomIps : (S.keys model.ip.score).length + (model.ip.newKeys QoSTransactionMeta.ip txs).card ≤ S.capacity maxIps)
    (hroomSigners : (S.keys model.signer.score).length + (model.signer.newKeys QoSTransactionMeta.signer txs).card ≤
      S.capacity maxSigners) :
    ∃ after, model.updateModel txs pruneSigners pruneIps = .ok after ∧
      (model.unpruned txs).prune pruneIps pruneSigners = .ok after ∧
      Averages QoSTransactionMeta.ip txs model.ip (model.unpruned txs).ip ∧
      Averages QoSTransactionMeta.signer txs model.signer (model.unpruned txs).signer ∧
      Prunes pruneIps (model.unpruned txs).ip after.ip ∧ Prunes pruneSigners (model.unpruned txs).signer after.signer := by
  have hrepIp := hip.tracks.represents (by rw [← hip.sizes]; omega)
  have hrepSigner := hsigner.tracks.represents (by rw [← hsigner.sizes]; omega)
  obtain ⟨f, hf, havgIp⟩ := hrepIp.averages hips hroomIps
  obtain ⟨g, hg, havgSigner⟩ := hrepSigner.averages hsigners hroomSigners
  obtain ⟨ip, -, eip, -, hpruneIp⟩ := hf.tracks.prunes pruneIps
  obtain ⟨signer, -, esigner, -, hpruneSigner⟩ := hg.tracks.prunes pruneSigners
  have hprune : (model.unpruned txs).prune pruneIps pruneSigners = .ok ⟨signer, ip⟩ :=
    IpSignerModel.prune_ok eip esigner
  exact ⟨⟨signer, ip⟩, hprune, hprune, havgIp, havgSigner, hpruneIp, hpruneSigner⟩

/-- Five transactions of one sender whose address is tracked and whose signer is not. -/
theorem updateModel_averages_five :
    Averages QoSTransactionMeta.ip (flood 5) (IpSignerModel.new [(1, 8)] [] : IpSignerModel sortedTree ℚ 16384 16384).ip
        ((IpSignerModel.new [(1, 8)] [] : IpSignerModel sortedTree ℚ 16384 16384).unpruned (flood 5)).ip ∧
      Averages QoSTransactionMeta.signer (flood 5)
        (IpSignerModel.new [(1, 8)] [] : IpSignerModel sortedTree ℚ 16384 16384).signer
        ((IpSignerModel.new [(1, 8)] [] : IpSignerModel sortedTree ℚ 16384 16384).unpruned (flood 5)).signer := by
  have hip : Mirrors ((empty : ScoreTable sortedTree ℚ UInt32 16384).insertBoth 1 8) := by
    rcases (Represents.empty (S := sortedTree) (m := 16384)).insertBoth (k := (1 : UInt32)) (8 : ℚ) rfl with
      ⟨-, h⟩ | ⟨-, h⟩
    · exact h.mirrors
    · rw [h]
      exact Represents.empty.mirrors
  have hlen : (sortedTree.keys (IpSignerModel.new [(1, 8)] [] : IpSignerModel sortedTree ℚ 16384 16384).ip.score).length ≤
      (sortedTree.keys (sortedTree.new : sortedTree.Tree UInt32 ℚ 16384)).length + 1 :=
    Sokoban.length_insert_le (sortedTree.new : sortedTree.Tree UInt32 ℚ 16384) 1 8
  have hshort : ∀ {α : Type} [LinearOrder α] (key : QoSTransactionMeta ℚ → α) (k : α),
      (valuesOf key (flood 5) k).length < 2 ^ 32 :=
    fun key k => lt_of_le_of_lt (length_valuesOf_le key (flood 5) k) (by decide)
  obtain ⟨after, -, -, hips, hsigners, -⟩ := updateModel_averages
    (IpSignerModel.new [(1, 8)] [] : IpSignerModel sortedTree ℚ 16384 16384) hip Represents.empty.mirrors (flood 5) 4 4
    (hshort _) (hshort _)
    (le_trans (Nat.add_le_add hlen (card_newKeys_replicate _ _ _ _)) (by rw [Sokoban.length_new]; decide))
    (le_trans (Nat.add_le_add (le_of_eq Sokoban.length_new) (card_newKeys_replicate _ _ _ _)) (by decide))
  exact ⟨hips, hsigners⟩

/-- After `2 ^ 32` transactions the counter is back at zero. -/
theorem updateModel_wraps :
    Mirrors (IpSignerModel.new [] [] : IpSignerModel sortedTree ℚ 16384 16384).ip ∧
      Mirrors (IpSignerModel.new [] [] : IpSignerModel sortedTree ℚ 16384 16384).signer ∧
      (sortedTree.keys (IpSignerModel.new [] [] : IpSignerModel sortedTree ℚ 16384 16384).ip.score).length +
        ((IpSignerModel.new [] [] : IpSignerModel sortedTree ℚ 16384 16384).ip.newKeys QoSTransactionMeta.ip
          (flood (2 ^ 32))).card ≤ sortedTree.capacity 16384 ∧
      (sortedTree.keys (IpSignerModel.new [] [] : IpSignerModel sortedTree ℚ 16384 16384).signer.score).length +
        ((IpSignerModel.new [] [] : IpSignerModel sortedTree ℚ 16384 16384).signer.newKeys QoSTransactionMeta.signer
          (flood (2 ^ 32))).card ≤ sortedTree.capacity 16384 ∧
      ¬ Averages QoSTransactionMeta.ip (flood (2 ^ 32))
        (IpSignerModel.new [] [] : IpSignerModel sortedTree ℚ 16384 16384).ip
        ((IpSignerModel.new [] [] : IpSignerModel sortedTree ℚ 16384 16384).unpruned (flood (2 ^ 32))).ip :=
  ⟨Represents.empty.mirrors, Represents.empty.mirrors,
    le_trans (Nat.add_le_add (le_of_eq Sokoban.length_new) (card_newKeys_replicate _ _ _ _)) (by decide),
    le_trans (Nat.add_le_add (le_of_eq Sokoban.length_new) (card_newKeys_replicate _ _ _ _)) (by decide),
    not_averages_flood (by norm_num) (by decide) (by decide)⟩

end Qos
