import SolanaQos.LoopCredit
import SolanaQos.ScoreRoom
/-!
# No source is refused for lack of space

The loop hands the model a batch as soon as 401 entries are complete, so at most 80 ips and 80 signers of a batch have
the five transactions that a new source needs.  Pruning leaves as much room after every batch, a penalty takes none,
and no insert of a run meets a full tree.

The trees are bounded and an insert into a full one is silently refused, so the property is one of the inserts on the
way and not of the states.  `Event.audit` is what a turn did to the model it found, as an audited computation, with a
verdict for each insert:
* its result is the model behind the turn (`turn_audit`), so nothing escapes the audit;
* `Roomy` is the invariant that there is room for the new sources of one batch: a turn whose batch has 401 entries
  passes the audit and restores it (`IpSignerModel.Roomy.audit`);
* a run of audited turns is the run of turns with notes, so the verdicts of a whole run are all favourable
  (`run_auditedTurn_passes`).

The last part is a run in which there is something to insert: 401 numbered packets of one sender come in, and the
reports complete them (`flood_run`).  The first 400 entries are pending one after the other (`Draining`), the last
hands the batch over, and the sender is tracked behind it.  A turn without a verdict brings no source in, so some turn
of the audited run passed one (`run_auditedTurn_inserts`).
-/
namespace Qos

open Runs ScoreTable

variable {S : Sokoban} {F : Type} [LinearOrder F]

/-! ## The model -/

/-- **Room for the new sources of one batch.** -/
structure IpSignerModel.Roomy {maxSigners maxIps : Nat} (model : IpSignerModel S F maxSigners maxIps) : Prop where
  consistent : model.Consistent
  ips : (S.keys model.ip.inverse).length + 80 ≤ S.capacity maxIps
  signers : (S.keys model.signer.inverse).length + 80 ≤ S.capacity maxSigners

section Model

variable {α : Type} [LinearOrder α] {m maxSigners maxIps : Nat}

theorem IpSignerModel.Roomy.ipFeedback [Mul F] [OfScientific F] {model : IpSignerModel S F maxSigners maxIps}
    (h : model.Roomy) (ip : UInt32) : (model.ipFeedbackAudited ip).Passes ∧ (model.ipFeedback ip).Roomy := by
  obtain ⟨⟨f, hf⟩, hg⟩ := h.consistent
  have hsize := hf.tracks.length_congr (hf.feedback ip).tracks (fun k => by
    rw [Function.update_apply]
    split
    · rename_i hk
      rw [hk, Option.isSome_map]
    · rfl)
  constructor
  · apply Audit.Passes.bind
    · exact hf.passes_feedback ip
    · exact Audit.passes_pure _
  · exact ⟨h.consistent.ipFeedback ip, le_trans (Nat.add_le_add_right (le_of_eq hsize) 80) h.ips, h.signers⟩

variable [One F] [Add F] [Sub F] [Mul F] [Div F] [NatCast F] [OfScientific F]

theorem ScoreTable.Represents.passes_batch {t : ScoreTable S F α m} {f : α → Option F} (h : Represents t f)
    (key : QoSTransactionMeta F → α) {txs : List (QoSTransactionMeta F)} (htxs : txs.length ≤ 401)
    (hroom : (S.keys t.inverse).length + 80 ≤ S.capacity m) :
    (t.updateScoresAudited (Candidates.collect key txs)).Passes := by
  have hcount : ∀ k, (valuesOf key txs k).length < 2 ^ 32 := by
    intro k
    have hle := length_valuesOf_le key txs k
    omega
  have hcard := card_newKeys_le t key txs
  exact h.passes_updateScores _ (fun k c => h.candidate_newKeys hcount) (by omega)

theorem IpSignerModel.Roomy.updateModel {model : IpSignerModel S F maxSigners maxIps} (h : model.Roomy)
    {txs : List (QoSTransactionMeta F)} (htxs : txs.length ≤ 401) {pruneSigners pruneIps : Nat}
    (hips : pruneIps + 80 ≤ S.capacity maxIps) (hsigners : pruneSigners + 80 ≤ S.capacity maxSigners) :
    (model.updateModelAudited txs pruneSigners pruneIps).Passes ∧
      ∀ model', model.updateModel txs pruneSigners pruneIps = .ok model' → model'.Roomy := by
  obtain ⟨⟨f, hf⟩, ⟨g, hg⟩⟩ := h.consistent
  constructor
  · apply Audit.Passes.bind
    · exact hf.passes_batch _ htxs h.ips
    · apply Audit.Passes.bind
      · exact hg.passes_batch _ htxs h.signers
      · exact Audit.passes_pure _
  · intro model' hmodel'
    obtain ⟨f', hf', -⟩ := hf.updateScores (Candidates.collect QoSTransactionMeta.ip txs)
    obtain ⟨g', hg', -⟩ := hg.updateScores (Candidates.collect QoSTransactionMeta.signer txs)
    obtain ⟨ip, f'', eip, hf'', -, hip⟩ := hf'.prune pruneIps
    obtain ⟨signer, g'', esigner, hg'', -, hsigner⟩ := hg'.prune pruneSigners
    have hprune : model.updateModel txs pruneSigners pruneIps = .ok ⟨signer, ip⟩ := IpSignerModel.prune_ok eip esigner
    rw [hprune] at hmodel'
    cases hmodel'
    exact ⟨⟨⟨f'', hf''⟩, ⟨g'', hg''⟩⟩, by simp only; omega, by simp only; omega⟩

end Model

/-! ## The audited turn -/

section Traces

variable [One F] [Add F] [Sub F] [Mul F] [Div F] [NatCast F] [OfScientific F]

def Event.audit (args : Args) (model : IpSignerModel S F 16384 16384) :
    Event F → Audit (Except Panic (IpSignerModel S F 16384 16384))
  | .packet p (.error .failedTransactionView) _ =>
    match p.metadata.addr with
    | .v4 ipv4 => do
      let model ← model.ipFeedbackAudited ipv4.toBits
      return .ok model
    | .v6 _ => return .ok model
  | .remainingMeta _ _ (some batch) => model.updateModelAudited batch args.maxSigners args.maxIps
  | .sigverifyFailed p =>
    match p.metadata.addr with
    | .v4 ipv4 => do
      let model ← model.ipFeedbackAudited (u32FromLeBytes ipv4.octets)
      return .ok model
    | .v6 _ => return .error .unreachable
  | _ => return .ok model

theorem IpSignerModel.Roomy.audit {args : Args} {model : IpSignerModel S F 16384 16384} (h : model.Roomy)
    (hips : args.maxIps + 80 ≤ S.capacity 16384) (hsigners : args.maxSigners + 80 ≤ S.capacity 16384) {event : Event F}
    (hbatch : ∀ batch, event.handed = some batch → batch.length = 401) :
    (event.audit args model).Passes ∧ ∀ model', (event.audit args model).result = .ok model' → model'.Roomy := by
  have hfeedback : ∀ ip, (model.ipFeedbackAudited ip >>= fun model' => pure (Except.ok (ε := Panic) model')).Passes ∧
      ∀ model', (model.ipFeedbackAudited ip >>= fun model' => pure (Except.ok (ε := Panic) model')).result = .ok model' →
        model'.Roomy := by
    intro ip
    obtain ⟨hpass, hroomy⟩ := h.ipFeedback ip
    refine ⟨hpass.bind (Audit.passes_pure _), fun model' hmodel' => ?_⟩
    rw [Audit.result_bind, Audit.result_pure, IpSignerModel.result_ipFeedbackAudited] at hmodel'
    cases hmodel'
    exact hroomy
  have hsame : (pure (Except.ok model) : Audit (Except Panic _)).Passes ∧
      ∀ model', Audit.result (pure (Except.ok model) : Audit (Except Panic _)) = .ok model' → model'.Roomy := by
    refine ⟨Audit.passes_pure _, fun model' hmodel' => ?_⟩
    cases hmodel'
    exact h
  unfold Event.audit
  split
  · split
    · exact hfeedback _
    · exact hsame
  · rename_i batch
    rw [IpSignerModel.result_updateModelAudited]
    exact h.updateModel (le_of_eq (hbatch batch rfl)) hips hsigners
  · split
    · exact hfeedback _
    · refine ⟨Audit.passes_pure _, fun model' hmodel' => ?_⟩
      cases hmodel'
  · exact hsame

theorem IpSignerModel.tracked_of_silent {args : Args} {model model' : IpSignerModel S F 16384 16384}
    (hconsistent : model.Consistent) {event : Event F} (hsilent : (event.audit args model).verdicts = [])
    (hresult : (event.audit args model).result = .ok model') {ip : UInt32}
    (hip : (S.get model'.ip.score ip).isSome) : (S.get model.ip.score ip).isSome := by
  have hfeedback : ∀ ip', (model.ipFeedbackAudited ip' >>= fun model' => pure (Except.ok (ε := Panic) model')).verdicts =
      [] → (model.ipFeedbackAudited ip' >>= fun model' => pure (Except.ok (ε := Panic) model')).result = .ok model' →
      model' = model := by
    intro ip' hverdicts hmodel'
    rw [Audit.verdicts_bind, List.append_eq_nil_iff] at hverdicts
    rw [Audit.result_bind, Audit.result_pure, IpSignerModel.result_ipFeedbackAudited] at hmodel'
    have hnone : (model.ip.feedbackAudited ip').verdicts = [] := (List.append_eq_nil_iff.1 hverdicts.1).1
    cases hmodel'
    unfold IpSignerModel.ipFeedback
    rw [ScoreTable.feedback_of_silent hnone]
  have hbatch : ∀ batch, (model.updateModelAudited batch args.maxSigners args.maxIps).verdicts = [] →
      (model.updateModelAudited batch args.maxSigners args.maxIps).result = .ok model' →
      (S.get model.ip.score ip).isSome := by
    intro batch hverdicts hmodel'
    obtain ⟨⟨f, hf⟩, -⟩ := hconsistent
    rw [IpSignerModel.result_updateModelAudited] at hmodel'
    obtain ⟨ipTable, hipTable, hmodel⟩ := bind_eq_ok hmodel'
    obtain ⟨signerTable, -, hmodel⟩ := bind_eq_ok hmodel
    cases hmodel
    -- the batch changes no score, and pruning only forgets
    rw [ScoreTable.updateScores_of_silent (List.append_eq_nil_iff.1 hverdicts).1] at hipTable
    obtain ⟨pruned, f', hprune, hf', hsub, -⟩ := hf.prune args.maxIps
    cases hprune.symm.trans hipTable
    rw [hf'.score] at hip
    rw [hf.score]
    rcases hsub ip with hsame | hforgotten
    · rwa [hsame] at hip
    · rw [hforgotten] at hip
      cases hip
  revert hsilent hresult
  unfold Event.audit
  split
  · split
    · exact fun hsilent hresult => hfeedback _ hsilent hresult ▸ hip
    · intro _ hresult
      cases hresult
      exact hip
  · exact hbatch _
  · split
    · exact fun hsilent hresult => hfeedback _ hsilent hresult ▸ hip
    · intro _ hresult
      cases hresult
  · intro _ hresult
    cases hresult
    exact hip

end Traces

namespace QosState

variable {H : HeapCrate (ScoredTransaction F)}

theorem roomy_init (sdk : Sdk) (args : Args) (hcap : 80 ≤ S.capacity 16384) :
    (init sdk args : QosState S H).model.Roomy :=
  ⟨IpSignerModel.consistent_new, le_trans (Nat.add_le_add_right (le_of_eq Sokoban.length_new) 80) (by omega),
    le_trans (Nat.add_le_add_right (le_of_eq Sokoban.length_new) 80) (by omega)⟩

variable [Zero F] [One F] [Add F] [Sub F] [Mul F] [Div F] [NatCast F] [OfScientific F]

/-! ## Runs -/

/-- **The audit misses nothing**: its result is the model the turn leaves. -/
theorem turn_audit {sdk : Sdk} {args : Args} {q q' : QosState S H} {message : Message} {event : Event F}
    (hturn : q.turn sdk args message = .ok (event, q')) : (event.audit args q.model).result = .ok q'.model := by
  cases turn_cases hturn with
  | packet hturn =>
    cases hturn with
    | rejected r e hout hresult =>
      cases hout with
      | failedView ipv4 bytes haddr hdata hparse =>
        cases hresult
        simp only [Event.audit, haddr, Audit.result_bind, Audit.result_pure, IpSignerModel.result_ipFeedbackAudited]
      | admitted => cases hresult
      | _ =>
        cases hresult
        rfl
    | queued r tx zeroScore reads queued sent stats stats' batch hout hresult hqueue htransmit =>
      cases hout with
      | admitted => rfl
      | _ => cases hresult
  | recentSignature signature => rfl
  | remainingMeta hturn =>
    cases hturn with
    | absent habsent => rfl
    | completed partialMeta hlookup hlen => rfl
    | updated partialMeta model hlookup hlen hmodel =>
      rw [Event.audit, IpSignerModel.result_updateModelAudited, hmodel]
  | @sigverifyFailed packet model hmodel =>
    unfold processFailedSigverify at hmodel
    cases haddr : packet.metadata.addr with
    | v4 ipv4 =>
      rw [haddr] at hmodel
      cases hmodel
      simp only [Event.audit, haddr, Audit.result_bind, Audit.result_pure, IpSignerModel.result_ipFeedbackAudited]
    | v6 octets =>
      rw [haddr] at hmodel
      cases hmodel

def auditedTurn (sdk : Sdk) (args : Args) : QosState S H → Message → Except Panic ((Event F × List Bool) × QosState S H) :=
  annotate (turn sdk args) (fun q event => (event.audit args q.model).verdicts)

theorem auditedTurn_passes {sdk : Sdk} {args : Args} (hips : args.maxIps + 80 ≤ S.capacity 16384)
    (hsigners : args.maxSigners + 80 ≤ S.capacity 16384) {trace : List (Event F)} {q q' : QosState S H}
    {message : Message} {turn : Event F × List Bool} (hbatched : q.Batched trace) (hroomy : q.model.Roomy)
    (hturn : q.auditedTurn sdk args message = .ok (turn, q')) :
    (q'.Batched (trace ++ [turn.1]) ∧ q'.model.Roomy) ∧ ∀ accepted ∈ turn.2, accepted = true := by
  obtain ⟨hturn, hverdicts⟩ := annotate_ok hturn
  have hnext := hbatched.turn hturn
  have hsizes : ∀ batch, turn.1.handed = some batch → batch.length = 401 :=
    fun batch hbatch => hnext.sizes batch (by simp [List.filterMap_append, hbatch])
  obtain ⟨hpass, hresult⟩ := hroomy.audit hips hsigners hsizes
  refine ⟨⟨hnext, hresult _ (turn_audit hturn)⟩, ?_⟩
  rw [hverdicts]
  exact hpass

theorem run_auditedTurn_passes {sdk : Sdk} {args : Args} (hips : args.maxIps + 80 ≤ S.capacity 16384)
    (hsigners : args.maxSigners + 80 ≤ S.capacity 16384) {messages : List Message} {audited : List (Event F × List Bool)}
    {q : QosState S H} (hrun : run (auditedTurn sdk args) (init sdk args) messages = .ok (audited, q)) :
    ∀ turn ∈ audited, ∀ accepted ∈ turn.2, accepted = true := by
  intro turn hturn
  obtain ⟨pre, post, rfl⟩ := List.append_of_mem hturn
  refine run_trace (fun trace q => Batched (trace.map Prod.fst) q ∧ q.model.Roomy)
    (fun _ turn => ∀ accepted ∈ turn.2, accepted = true) ?_ messages [] _ _ _
    ⟨batched_init sdk args, roomy_init sdk args (by omega)⟩ hrun pre turn post rfl
  intro trace q message turn q' hq hstep
  rw [List.map_append]
  exact auditedTurn_passes hips hsigners hq.1 hq.2 hstep

/-- **A tracked source was inserted**: some turn of the audited run passed a verdict. -/
theorem run_auditedTurn_inserts {sdk : Sdk} {args : Args} (hips : args.maxIps + 80 ≤ S.capacity 16384)
    (hsigners : args.maxSigners + 80 ≤ S.capacity 16384) {messages : List Message} {audited : List (Event F × List Bool)}
    {q : QosState S H} (hrun : run (auditedTurn sdk args) (init sdk args) messages = .ok (audited, q)) {ip : UInt32}
    (hip : (S.get q.model.ip.score ip).isSome) : ∃ turn ∈ audited, true ∈ turn.2 := by
  have hhist := run_hist (fun trace q => (Batched (trace.map Prod.fst) q ∧ q.model.Roomy) ∧
      ((∀ turn ∈ trace, turn.2 = []) → ∀ ip, S.get q.model.ip.score ip = none)) ?_ messages [] _ _ _
    ⟨⟨batched_init sdk args, roomy_init sdk args (by omega)⟩, fun _ ip => S.get_new ip⟩ hrun
  · by_contra hnone
    have hsilent : ∀ turn ∈ audited, turn.2 = [] := by
      intro turn hturn
      refine List.eq_nil_iff_forall_not_mem.2 fun accepted haccepted => hnone ⟨turn, hturn, ?_⟩
      rwa [← run_auditedTurn_passes hips hsigners hrun turn hturn accepted haccepted]
    rw [hhist.2 hsilent] at hip
    cases hip
  · intro trace q message turn q' hq hstep
    have hnext := (auditedTurn_passes hips hsigners hq.1.1 hq.1.2 hstep).1
    rw [List.map_append]
    refine ⟨hnext, fun hsilent ip => ?_⟩
    obtain ⟨hturn, hverdicts⟩ := annotate_ok hstep
    have hlast := hsilent turn (List.mem_append.2 (Or.inr (List.mem_singleton.2 rfl)))
    rw [hverdicts] at hlast
    have hbefore := hq.2 (fun turn hturn => hsilent turn (List.mem_append.2 (Or.inl hturn))) ip
    rw [← Option.not_isSome_iff_eq_none] at hbefore ⊢
    exact fun hip => hbefore (IpSignerModel.tracked_of_silent hq.1.2.consistent hlast (turn_audit hturn) hip)

/-! ## A first batch -/

omit [LinearOrder F] [Zero F] [One F] [Add F] [Sub F] [Mul F] [Div F] [NatCast F] [OfScientific F] in
theorem length_valuesOf_all {txs : List (QoSTransactionMeta F)} {ip : UInt32} (hips : ∀ tx ∈ txs, tx.ip = ip) :
    (valuesOf QoSTransactionMeta.ip txs ip).length = txs.length := by
  unfold valuesOf
  rw [List.filter_eq_self.2 fun tx htx => decide_eq_true (hips tx htx), List.length_map]

omit [Zero F] in
/-- A first batch from one sender, at least five transactions and few enough to count, is tracked, and pruning leaves it. -/
theorem tracked_of_flood {maxSigners maxIps pruneSigners pruneIps : Nat} {model : IpSignerModel S F maxSigners maxIps}
    {txs : List (QoSTransactionMeta F)} {ip : UInt32} (hips : ∀ tx ∈ txs, tx.ip = ip) (hmany : 5 ≤ txs.length)
    (hfew : txs.length < 2 ^ 32) (hroom : 1 ≤ S.capacity maxIps) (hprune : 1 ≤ pruneIps)
    (hmodel : (IpSignerModel.new [] [] : IpSignerModel S F maxSigners maxIps).updateModel txs pruneSigners pruneIps =
      .ok model) : (S.get model.ip.score ip).isSome := by
  obtain ⟨f, hf, hcases, hfresh⟩ := (ScoreTable.Represents.empty : ScoreTable.Represents
    (ScoreTable.empty : ScoreTable S F UInt32 maxIps) fun _ => none).updateScores
    (Candidates.collect QoSTransactionMeta.ip txs)
  have hlen := length_valuesOf_all hips
  obtain ⟨c, hc⟩ := Option.ne_none_iff_exists'.1 (mt candidateOf_eq_none.1
    (List.ne_nil_of_length_pos (by omega : 0 < (valuesOf QoSTransactionMeta.ip txs ip).length)))
  have hcount := (candidateOf_five hc (by omega)).2 (by omega)
  have hbatch : ∀ k c', (Candidates.collect QoSTransactionMeta.ip txs)[k]? = some c' → k = ip := by
    intro k c' hc'
    obtain ⟨tx, htx, rfl⟩ := List.mem_map.1 (mem_of_collect hc')
    exact hips tx htx
  have htracked : f ip = some c.finalize := by
    refine hfresh {ip} (fun k c' hc' _ _ => Finset.mem_singleton.2 (hbatch k c' hc')) ?_ ip c
      ((collect_get _ _ _).trans hc) hcount rfl
    unfold ScoreTable.empty
    rw [Sokoban.length_new, Finset.card_singleton]
    exact hroom
  -- the sender is alone
  have hone : (S.keys ((ScoreTable.empty : ScoreTable S F UInt32 maxIps).updateScores
      (Candidates.collect QoSTransactionMeta.ip txs)).score).length ≤ 1 := by
    rw [← Sokoban.card_support, ← Finset.card_singleton ip]
    refine Finset.card_le_card fun k hk => Finset.mem_singleton.2 ?_
    rw [Sokoban.mem_support, hf.score] at hk
    rcases hcases k with hnone | ⟨c', hc', -⟩
    · rw [hnone] at hk
      cases hk
    · exact hbatch k c' hc'
  obtain ⟨table, htable, hmodel⟩ := bind_eq_ok hmodel
  obtain ⟨signers, -, hmodel⟩ := bind_eq_ok hmodel
  cases hmodel
  cases (ScoreTable.prune_of_le (hf.tracks.length_eq.le.trans (le_trans hone hprune))).symm.trans htable
  rw [hf.score, htracked]
  rfl

/-- The first `k` packets are completed, all from one sender, and those up to number 400 are still stored. -/
structure Draining (a : Ipv4Addr) (k : Nat) (q : QosState S H) : Prop where
  ready : q.Ready
  model : q.model = IpSignerModel.new [] []
  length : q.completeMetas.length = k
  completed : ∀ entry ∈ q.completeMetas, entry.ip = u32FromLeBytes a.octets
  stored : ∀ i, k ≤ i → i ≤ 400 → ∃ partialMeta,
    q.partialMetas.lookup (UInt64.ofNat i) = some partialMeta ∧ partialMeta.ip = u32FromLeBytes a.octets

omit [Zero F] [One F] [Add F] [Sub F] [Mul F] [Div F] [NatCast F] [OfScientific F] in
theorem Filled.draining {a : Ipv4Addr} {q : QosState S H} (h : q.Filled a 401) : q.Draining a 0 where
  ready := h.ready
  model := h.model
  length := by rw [h.completed]; rfl
  completed := fun entry hentry => by
    rw [h.completed] at hentry
    cases hentry
  stored := fun i _ hi => h.stored i (by omega)

omit [Zero F] [One F] [Add F] [Sub F] in
theorem Draining.entries {a : Ipv4Addr} {k : Nat} {q : QosState S H} (h : q.Draining a k) (hk : k ≤ 400)
    {partialMeta : QoSPartialMeta} (hlookup : q.partialMetas.lookup (UInt64.ofNat k) = some partialMeta)
    (m : QoSRemainingMeta) :
    ∀ entry ∈ q.completeMetas ++ [completeEntry partialMeta m], entry.ip = u32FromLeBytes a.octets := by
  intro entry hentry
  rcases List.mem_append.1 hentry with hentry | hentry
  · exact h.completed entry hentry
  · obtain ⟨stored, hstored, hip⟩ := h.stored k le_rfl hk
    rw [hlookup] at hstored
    cases hstored
    rw [List.mem_singleton.1 hentry, completeEntry_ip, hip]

omit [Zero F] in
theorem Draining.turn {a : Ipv4Addr} (hroom : 1 ≤ S.capacity 16384) {args : Args} (hargs : 1 ≤ args.maxIps) {k : Nat}
    (hk : k ≤ 400) {q : QosState S H} (h : q.Draining a k) :
    ∃ entry updated q', q.remainingMetaTurn args ⟨UInt64.ofNat k, 0⟩ =
        .ok (.remainingMeta ⟨UInt64.ofNat k, 0⟩ (some entry) updated, q') ∧
      if k < 400 then updated = none ∧ q'.Draining a (k + 1)
      else ∃ batch, updated = some batch ∧ batch.length = 401 ∧ (∀ entry ∈ batch, entry.ip = u32FromLeBytes a.octets) ∧
        (S.get q'.model.ip.score (u32FromLeBytes a.octets)).isSome := by
  obtain ⟨event, q', hturn, hready⟩ := h.ready.remainingMetaTurn args ⟨UInt64.ofNat k, 0⟩
  have hlen := h.length
  cases remainingMetaTurn_cases hturn with
  | absent habsent =>
    obtain ⟨stored, hstored, -⟩ := h.stored k le_rfl hk
    rw [Lru.Cache.contains_eq, hstored] at habsent
    cases habsent
  | completed partialMeta hlookup hlt =>
    refine ⟨_, none, _, hturn, ?_⟩
    rw [if_pos (by omega)]
    refine ⟨rfl, hready, h.model, ?_, h.entries hk hlookup _, fun i hi hle => ?_⟩
    · rw [List.length_append, hlen, List.length_singleton]
    · rw [Lru.Cache.lookup_pop, if_neg]
      · exact h.stored i (by omega) hle
      · rw [hashKey_inj (by omega) (by omega)]
        omega
  | updated partialMeta model hlookup hge hmodel =>
    refine ⟨_, some _, _, hturn, ?_⟩
    rw [if_neg (by omega)]
    have hlength : (q.completeMetas ++ [completeEntry partialMeta ⟨UInt64.ofNat k, 0⟩]).length = 401 := by
      rw [List.length_append, hlen, List.length_singleton]
      omega
    rw [h.model] at hmodel
    have hips := h.entries hk hlookup ⟨UInt64.ofNat k, 0⟩
    exact ⟨_, rfl, hlength, hips, tracked_of_flood hips (by omega) (by omega) hroom hargs hmodel⟩

/-- The messages that complete the packets `k, …, k + n - 1`. -/
def remainingFor (k n : Nat) : List QoSRemainingMeta := (List.range' k n).map fun i => ⟨UInt64.ofNat i, 0⟩

omit [Zero F] in
theorem Draining.run {a : Ipv4Addr} (hroom : 1 ≤ S.capacity 16384) (args : Args) (hargs : 1 ≤ args.maxIps) :
    ∀ (n k : Nat), k + n = 400 → ∀ {q : QosState S H}, q.Draining a k →
    ∃ events q' batch, q.consumeRemainingMetas args (remainingFor k (n + 1)) = .ok (events, q') ∧
      batch ∈ events.filterMap Event.handed ∧ (∀ entry ∈ batch, entry.ip = u32FromLeBytes a.octets) ∧
      (S.get q'.model.ip.score (u32FromLeBytes a.octets)).isSome
  | 0, k, hk, q, h => by
    obtain ⟨entry, updated, q', hturn, hend⟩ := h.turn hroom hargs (by omega)
    rw [if_neg (by omega)] at hend
    obtain ⟨batch, rfl, -, hips, htracked⟩ := hend
    refine ⟨[.remainingMeta ⟨UInt64.ofNat k, 0⟩ (some entry) (some batch)], q', batch, ?_, List.mem_singleton.2 rfl,
      hips, htracked⟩
    show q.consumeRemainingMetas args [⟨UInt64.ofNat k, 0⟩] = _
    rw [consumeRemainingMetas, hturn, ok_bind]
    rfl
  | n + 1, k, hk, q, h => by
    obtain ⟨entry, updated, q₁, hturn, hend⟩ := h.turn hroom hargs (by omega)
    rw [if_pos (by omega)] at hend
    obtain ⟨rfl, h₁⟩ := hend
    obtain ⟨events, q', batch, hrest, hbatch, hips, htracked⟩ := Draining.run hroom args hargs n (k + 1) (by omega) h₁
    refine ⟨.remainingMeta ⟨UInt64.ofNat k, 0⟩ (some entry) none :: events, q', batch, ?_, hbatch, hips, htracked⟩
    show q.consumeRemainingMetas args (⟨UInt64.ofNat k, 0⟩ :: remainingFor (k + 1) (n + 1)) = _
    rw [consumeRemainingMetas, hturn, ok_bind]
    simp only
    rw [hrest]
    rfl

/-- **The run of 401 packets from one sender**, all of them completed. -/
theorem flood_run (hroom : 1 ≤ S.capacity 16384) (a : Ipv4Addr) (args : Args) (hargs : 1 ≤ args.maxIps) :
    ∃ events q batch, Runs.run (call steadySdk args) (init steadySdk args : QosState S H)
        [.transactionPackets ((List.range 401).map (signedPacket a)), .remainingMetas (remainingFor 0 401)] =
        .ok (events, q) ∧
      batch ∈ events.flatten.filterMap Event.handed ∧ (∀ entry ∈ batch, entry.ip = u32FromLeBytes a.octets) ∧
      (S.get q.model.ip.score (u32FromLeBytes a.octets)).isSome := by
  obtain ⟨events₁, q₁, hpackets, hfilled⟩ := filled_run (S := S) (F := F) (H := H) a args 401 (by decide)
  obtain ⟨events₂, q, batch, hmetas, hbatch, hips, htracked⟩ := hfilled.draining.run hroom args hargs 400 0 rfl
  have htake : ((List.range 401).map (signedPacket a)).take 1000 = (List.range 401).map (signedPacket a) := by
    rw [List.take_of_length_le]
    rw [List.length_map, List.length_range]
    decide
  refine ⟨[events₁, events₂], q, batch, ?_, ?_, hips, htracked⟩
  · simp only [Runs.run, call, consumeTransactionPackets, htake, hpackets, hmetas, ok_bind]
  · rw [List.flatten_cons, List.filterMap_append, List.flatten_singleton]
    exact List.mem_append.2 (Or.inr hbatch)

/-- **No source is refused for lack of space.**  In every run at most 400 entries are pending, every batch has 401, each
completed entry is in at most one of them, and at most 80 new ips and 80 new signers of a batch qualify.  If the limits
leave 80 places in trees of 16383, then every insert that the turns of the run made was accepted; the verdicts are passed
on the inserts that lead from the model before a turn to the model behind it. -/
theorem qos_room (sdk : Sdk) (args : Args) (calls : List Call) (events : List (List (Event F))) (q : QosState S H)
    (hrun : run (call sdk args) (init sdk args) calls = .ok (events, q)) :
    q.completeMetas.length ≤ 400 ∧
      (∀ batch ∈ events.flatten.filterMap Event.handed, batch.length = 401 ∧
        (∀ t : ScoreTable S F UInt32 16384, (t.newKeys QoSTransactionMeta.ip batch).card ≤ 80) ∧
        ∀ t : ScoreTable S F Pubkey 16384, (t.newKeys QoSTransactionMeta.signer batch).card ≤ 80) ∧
      events.flatten.filterMap Event.completed =
        (events.flatten.filterMap Event.handed).flatten ++ q.completeMetas ∧
      (16383 ≤ S.capacity 16384 → args.maxIps ≤ S.capacity 16384 - 80 → args.maxSigners ≤ S.capacity 16384 - 80 →
        ∃ messages audited, run (auditedTurn sdk args) (init sdk args : QosState S H) messages = .ok (audited, q) ∧
          audited.map Prod.fst = events.flatten ∧ ∀ turn ∈ audited, ∀ accepted ∈ turn.2, accepted = true) ∧
      ∀ (q₁ q₂ : QosState S H) (message : Message) (turn : Event F × List Bool),
        auditedTurn sdk args q₁ message = .ok (turn, q₂) →
          turn.2 = (turn.1.audit args q₁.model).verdicts ∧ (turn.1.audit args q₁.model).result = .ok q₂.model := by
  obtain ⟨messages, hturns⟩ := run_calls hrun
  have h := batched_run hrun
  refine ⟨h.pending, fun batch hbatch => ?_, h.once, fun hcap hips hsigners => ?_, fun q₁ q₂ message turn hstep => ?_⟩
  · have hsize := h.sizes batch hbatch
    refine ⟨hsize, fun t => ?_, fun t => ?_⟩
    · have := card_newKeys_le t QoSTransactionMeta.ip batch
      omega
    · have := card_newKeys_le t QoSTransactionMeta.signer batch
      omega
  · obtain ⟨audited, haudited, hevents⟩ := run_annotate
      (fun (q : QosState S H) event => (event.audit args q.model).verdicts) messages _ _ _ hturns
    exact ⟨messages, audited, haudited, hevents, run_auditedTurn_passes (by omega) (by omega) haudited⟩
  · obtain ⟨hturn, hverdicts⟩ := annotate_ok hstep
    exact ⟨hverdicts, turn_audit hturn⟩

/-- 401 transactions of one sender, under the largest limits: the batch is handed over, its sender is new and qualifies,
and what the run inserted was accepted. -/
theorem qos_room_flood :
    ∃ (events : List (List (Event ℚ))) (q : QosState sortedTree scoreHeap) (batch : List (QoSTransactionMeta ℚ))
        (messages : List Message) (audited : List (Event ℚ × List Bool)),
      run (call steadySdk ⟨16303, 16303, 1000⟩) (init steadySdk ⟨16303, 16303, 1000⟩)
        [.transactionPackets ((List.range 401).map (signedPacket ⟨#v[1, 2, 3, 4]⟩)), .remainingMetas (remainingFor 0 401)] =
        .ok (events, q) ∧
      batch ∈ events.flatten.filterMap Event.handed ∧ batch.length = 401 ∧
      0x04030201 ∈
        (ScoreTable.empty : ScoreTable sortedTree ℚ UInt32 16384).newKeys QoSTransactionMeta.ip batch ∧
      ((ScoreTable.empty : ScoreTable sortedTree ℚ UInt32 16384).newKeys QoSTransactionMeta.ip batch).card ≤ 80 ∧
      run (auditedTurn steadySdk ⟨16303, 16303, 1000⟩) (init steadySdk ⟨16303, 16303, 1000⟩) messages =
        .ok (audited, q) ∧
      audited.map Prod.fst = events.flatten ∧ (∀ turn ∈ audited, ∀ accepted ∈ turn.2, accepted = true) ∧
      ∃ turn ∈ audited, true ∈ turn.2 := by
  obtain ⟨events, q, batch, hrun, hbatch, hips, htracked⟩ :=
    flood_run (S := sortedTree) (F := ℚ) (H := scoreHeap) (by decide) ⟨#v[1, 2, 3, 4]⟩ ⟨16303, 16303, 1000⟩ (by decide)
  obtain ⟨-, hbatches, -, haudit, -⟩ := qos_room _ _ _ events q hrun
  obtain ⟨messages, audited, haudited, hevents, hpasses⟩ := haudit (by decide) (by decide) (by decide)
  obtain ⟨hlen, hnew, -⟩ := hbatches batch hbatch
  refine ⟨events, q, batch, messages, audited, hrun, hbatch, hlen, ?_, hnew _, haudited, hevents, hpasses,
    run_auditedTurn_inserts (by decide) (by decide) haudited htracked⟩
  have hvalues := length_valuesOf_all hips
  rw [hlen] at hvalues
  exact mem_newKeys.2 ⟨Sokoban.get_new _ _, le_of_le_of_eq (by decide) hvalues.symm⟩

end QosState

end Qos
