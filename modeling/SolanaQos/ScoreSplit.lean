import SolanaQos.ScoreBatch
/-!
# The two dimensions of the model do not touch

`update_model` and `prune` work on ips and signers in one body.  Seen from one dimension every call is an operation of
a single table: a batch is the sequence of `(key, value)` pairs with that dimension's limit, feedback and the other
dimension's scores are not there at all (`ModelOp.signerView`, `ModelOp.ipView`).

A call does to a table the step that its view says (`signer_step`, `ip_step`), and a call without a view leaves the
table alone (`signer_hidden`, `ip_hidden`).  A table's whole history is therefore its run on that view
(`Runs.run_project`), so what the view hides cannot reach it: two runs with the same view end in the same table
(`dimensions_independent`, by `Runs.run_noninterference`).  Every run returns, so no panic on one side can cut the
other short (`IpSignerModel.run_total`).
-/
namespace Qos

open Runs

variable {S : Sokoban} {F α : Type} {m maxSigners maxIps : Nat} [LinearOrder F] [LinearOrder α]

inductive TableOp (F α : Type)
  | update (pairs : List (α × F)) (limit : Nat)
  | prune (limit : Nat)
  | feedback (key : α)
  | add (key : α) (score : F)
  deriving DecidableEq

def ModelOp.signerView : ModelOp F → Option (TableOp F Pubkey)
  | .updateModel txs pruneSigners _ => some (.update (txs.map fun tx => (tx.signer, tx.value)) pruneSigners)
  | .prune _ numSigners => some (.prune numSigners)
  | .ipFeedback _ => none
  | .addIpScore _ _ => none
  | .addSignerScore signer score => some (.add signer score)

def ModelOp.ipView : ModelOp F → Option (TableOp F UInt32)
  | .updateModel txs _ pruneIps => some (.update (txs.map fun tx => (tx.ip, tx.value)) pruneIps)
  | .prune numIps _ => some (.prune numIps)
  | .ipFeedback ip => some (.feedback ip)
  | .addIpScore ip score => some (.add ip score)
  | .addSignerScore _ _ => none

section Runs

variable [One F] [Add F] [Sub F] [Mul F] [Div F] [NatCast F] [OfScientific F]

def Candidates.ofPairs (pairs : List (α × F)) : Candidates F α :=
  pairs.foldl (fun cs p => Candidates.addTransaction cs p.1 p.2) ∅

def ScoreTable.step (t : ScoreTable S F α m) : TableOp F α → Except Panic (Unit × ScoreTable S F α m)
  | .update pairs limit => do return ((), ← (t.updateScores (Candidates.ofPairs pairs)).prune limit)
  | .prune limit => do return ((), ← t.prune limit)
  | .feedback key => return ((), t.feedback key)
  | .add key score => return ((), t.addScore key score)

omit [LinearOrder F] [One F] [Sub F] [Mul F] [Div F] [NatCast F] [OfScientific F] in
theorem collect_eq_ofPairs (key : QoSTransactionMeta F → α) (txs : List (QoSTransactionMeta F)) :
    Candidates.collect key txs = Candidates.ofPairs (txs.map fun tx => (key tx, tx.value)) := by
  unfold Candidates.collect Candidates.ofPairs
  rw [List.foldl_map]

omit [One F] [Add F] [Sub F] [Mul F] [Div F] [NatCast F] [OfScientific F] in
theorem IpSignerModel.of_prune_ok {model model' : IpSignerModel S F maxSigners maxIps} {numIps numSigners : Nat}
    (h : model.prune numIps numSigners = .ok model') :
    model.ip.prune numIps = .ok model'.ip ∧ model.signer.prune numSigners = .ok model'.signer := by
  obtain ⟨ip, hip, h⟩ := bind_eq_ok h
  obtain ⟨signer, hsigner, h⟩ := bind_eq_ok h
  cases h
  exact ⟨hip, hsigner⟩

theorem signer_step {model model' : IpSignerModel S F maxSigners maxIps} {op : ModelOp F} {d : TableOp F Pubkey}
    {o : Unit} (hview : op.signerView = some d) (h : model.step op = .ok (o, model')) :
    ∃ q, model.signer.step d = .ok (q, model'.signer) := by
  cases op with
  | updateModel txs pruneSigners pruneIps =>
    cases hview
    obtain ⟨after, hupdate, h⟩ := bind_eq_ok h
    cases h
    obtain ⟨-, hsigner⟩ := IpSignerModel.of_prune_ok hupdate
    exact ⟨(), by rw [ScoreTable.step, ← collect_eq_ofPairs, hsigner]; rfl⟩
  | prune numIps numSigners =>
    cases hview
    obtain ⟨after, hprune, h⟩ := bind_eq_ok h
    cases h
    exact ⟨(), by rw [ScoreTable.step, (IpSignerModel.of_prune_ok hprune).2]; rfl⟩
  | ipFeedback ip => cases hview
  | addIpScore ip score => cases hview
  | addSignerScore signer score =>
    cases hview
    cases h
    exact ⟨(), rfl⟩

theorem signer_hidden {model model' : IpSignerModel S F maxSigners maxIps} {op : ModelOp F} {o : Unit}
    (hview : op.signerView = none) (h : model.step op = .ok (o, model')) : model'.signer = model.signer := by
  cases op with
  | updateModel txs pruneSigners pruneIps => cases hview
  | prune numIps numSigners => cases hview
  | ipFeedback ip =>
    cases h
    rfl
  | addIpScore ip score =>
    cases h
    rfl
  | addSignerScore signer score => cases hview

theorem ip_step {model model' : IpSignerModel S F maxSigners maxIps} {op : ModelOp F} {d : TableOp F UInt32}
    {o : Unit} (hview : op.ipView = some d) (h : model.step op = .ok (o, model')) :
    ∃ q, model.ip.step d = .ok (q, model'.ip) := by
  cases op with
  | updateModel txs pruneSigners pruneIps =>
    cases hview
    obtain ⟨after, hupdate, h⟩ := bind_eq_ok h
    cases h
    obtain ⟨hip, -⟩ := IpSignerModel.of_prune_ok hupdate
    exact ⟨(), by rw [ScoreTable.step, ← collect_eq_ofPairs, hip]; rfl⟩
  | prune numIps numSigners =>
    cases hview
    obtain ⟨after, hprune, h⟩ := bind_eq_ok h
    cases h
    exact ⟨(), by rw [ScoreTable.step, (IpSignerModel.of_prune_ok hprune).1]; rfl⟩
  | ipFeedback ip =>
    cases hview
    cases h
    exact ⟨(), rfl⟩
  | addIpScore ip score =>
    cases hview
    cases h
    exact ⟨(), rfl⟩
  | addSignerScore signer score => cases hview

theorem ip_hidden {model model' : IpSignerModel S F maxSigners maxIps} {op : ModelOp F} {o : Unit}
    (hview : op.ipView = none) (h : model.step op = .ok (o, model')) : model'.ip = model.ip := by
  cases op with
  | updateModel txs pruneSigners pruneIps => cases hview
  | prune numIps numSigners => cases hview
  | ipFeedback ip => cases hview
  | addIpScore ip score => cases hview
  | addSignerScore signer score =>
    cases h
    rfl

theorem IpSignerModel.step_total (model : IpSignerModel S F maxSigners maxIps) (op : ModelOp F) :
    ∃ o model', model.step op = .ok (o, model') := by
  cases op with
  | updateModel txs pruneSigners pruneIps =>
    obtain ⟨after, hafter⟩ := (model.unpruned txs).prune_total pruneIps pruneSigners
    exact ⟨(), after, by rw [IpSignerModel.step, IpSignerModel.updateModel_eq, hafter]; rfl⟩
  | prune numIps numSigners =>
    obtain ⟨after, hafter⟩ := model.prune_total numIps numSigners
    exact ⟨(), after, by rw [IpSignerModel.step, hafter]; rfl⟩
  | ipFeedback ip => exact ⟨(), _, rfl⟩
  | addIpScore ip score => exact ⟨(), _, rfl⟩
  | addSignerScore signer score => exact ⟨(), _, rfl⟩

theorem IpSignerModel.run_total (model : IpSignerModel S F maxSigners maxIps) (ops : List (ModelOp F)) :
    ∃ os after, run IpSignerModel.step model ops = .ok (os, after) := by
  obtain ⟨os, after, h, -⟩ := Runs.run_total (fun _ => True) (fun _ => True)
    (fun model op _ _ => by
      obtain ⟨o, model', h⟩ := IpSignerModel.step_total model op
      exact ⟨o, model', h, trivial⟩) ops model (fun _ _ => trivial) trivial
  exact ⟨os, after, h⟩

/-- **Neither dimension leaks into the other.**  Two runs from one model, of any lengths, whose calls look the same to the
signers end with the same signer tables and the same fallback; and so for the ips.  A run up to any of its steps is such a
run too. -/
theorem dimensions_independent (model : IpSignerModel S F maxSigners maxIps) (ops ops' : List (ModelOp F)) :
    ∃ os after os' after', run IpSignerModel.step model ops = .ok (os, after) ∧
      run IpSignerModel.step model ops' = .ok (os', after') ∧
      (ops.filterMap ModelOp.signerView = ops'.filterMap ModelOp.signerView →
        after.signer = after'.signer ∧
          after.approximateMedianSignerScore = after'.approximateMedianSignerScore) ∧
      (ops.filterMap ModelOp.ipView = ops'.filterMap ModelOp.ipView →
        after.ip = after'.ip ∧ after.approximateMedianIpScore = after'.approximateMedianIpScore) := by
  obtain ⟨os, after, h⟩ := model.run_total ops
  obtain ⟨os', after', h'⟩ := model.run_total ops'
  refine ⟨os, after, os', after', h, h', fun hsame => ?_, fun hsame => ?_⟩
  · have hsigner : after.signer = after'.signer := run_noninterference ScoreTable.step
      (fun _ _ _ _ hv hs => signer_hidden hv hs) (fun _ _ _ _ _ hv hs => signer_step hv hs) hsame rfl h h'
    exact ⟨hsigner, congrArg ScoreTable.approximateMedian hsigner⟩
  · have hip : after.ip = after'.ip := run_noninterference ScoreTable.step
      (fun _ _ _ _ hv hs => ip_hidden hv hs) (fun _ _ _ _ _ hv hs => ip_step hv hs) hsame rfl h h'
    exact ⟨hip, congrArg ScoreTable.approximateMedian hip⟩

/-- A rejected ip and a new ip beside the same signer score. -/
theorem dimensions_independent_two :
    ∃ os after os' after', run IpSignerModel.step (.new [(7, 5)] [] : IpSignerModel sortedTree ℚ 16 16)
        [.addSignerScore ⟨Vector.replicate 32 1⟩ 3, .ipFeedback 7] = .ok (os, after) ∧
      run IpSignerModel.step (.new [(7, 5)] [] : IpSignerModel sortedTree ℚ 16 16)
        [.addIpScore 8 2, .addSignerScore ⟨Vector.replicate 32 1⟩ 3] = .ok (os', after') ∧
      after.signer = after'.signer := by
  obtain ⟨os, after, os', after', h, h', hsigner, -⟩ := dimensions_independent
    (.new [(7, 5)] [] : IpSignerModel sortedTree ℚ 16 16)
    [.addSignerScore ⟨Vector.replicate 32 1⟩ 3, .ipFeedback 7]
    [.addIpScore 8 2, .addSignerScore ⟨Vector.replicate 32 1⟩ 3]
  exact ⟨os, after, os', after', h, h', (hsigner rfl).1⟩

end Runs

end Qos
