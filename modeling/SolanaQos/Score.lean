import SolanaQos.Bytes
import SolanaQos.Crates
import SolanaQos.Runs
/-!
# The ip and signer model (`model/src/models/ip_signer.rs`)

A dimension of the model is a pair of trees: the score of each key, and the same entries as `(score, key)` pairs
ordered by score first (`declare_inverse_score_entry`), from which the median and the prune victims are read.  The
source writes every operation twice, once for ips and once for signers; `ScoreTable` holds the shared text and
`IpSignerModel` applies it under the source's names.

Scores are any linear order with arithmetic, so the definitions do not fix a number format; results about orders of
entries hold of every format, and results about values are over the rationals.  Counts are `u32` and wrap.  What
`insert` returns is ignored, as in the source, so a full tree refuses silently.

`update_model` groups the batch into candidates, one `BTreeMap` for each dimension; averages the scores of the tracked
keys that occur; inserts those candidates that are left and have at least five transactions; and prunes each dimension
to its limit, by removing roots of the inverse tree.  `_forward` adds the two scores of a transaction's source and
signer, the median standing in for a score that is missing, and 1 for the median of an empty tree.
-/
namespace Qos

variable {S : Sokoban} {F α : Type} {m : Nat} [LinearOrder F] [LinearOrder α]

/-- One score per completed transaction (`QoSTransactionMeta<()>`). -/
structure QoSTransactionMeta (F : Type) where
  ip : UInt32
  signer : Pubkey
  value : F

structure ScoreUpdateCandidate (F : Type) where
  scoreSum : F
  count : UInt32

namespace ScoreUpdateCandidate

def new (score : F) : ScoreUpdateCandidate F := ⟨score, 1⟩

def update [Add F] (c : ScoreUpdateCandidate F) (score : F) : ScoreUpdateCandidate F :=
  ⟨c.scoreSum + score, c.count + 1⟩

def finalize [Div F] [NatCast F] (c : ScoreUpdateCandidate F) : F := c.scoreSum / (c.count.toNat : F)

end ScoreUpdateCandidate

/-- The `BTreeMap` of candidates the transactions fill. -/
abbrev Candidates (F α : Type) [LinearOrder α] := Std.TreeMap α (ScoreUpdateCandidate F) compare

def Candidates.addTransaction [Add F] (cs : Candidates F α) (key : α) (score : F) : Candidates F α :=
  cs.alter key fun
    | some c => some (c.update score)
    | none => some (.new score)

def Candidates.collect [Add F] (key : QoSTransactionMeta F → α) (txs : List (QoSTransactionMeta F)) : Candidates F α :=
  txs.foldl (fun cs tx => Candidates.addTransaction cs (key tx) tx.value) ∅

def ema [One F] [Add F] [Sub F] [Mul F] [OfScientific F] (oldScore newScore : F) : F :=
  oldScore * (1 - 0.05) + newScore * 0.05

/-! ## One pair of trees -/

structure ScoreTable (S : Sokoban) (F α : Type) (m : Nat) [LinearOrder F] [LinearOrder α] where
  score : S.Tree α F m
  inverse : S.Tree (F ×ₗ α) Unit m

namespace ScoreTable

/-- `InverseScoreEntryIp` and `InverseScoreEntrySigner`. -/
def entry (s : F) (k : α) : F ×ₗ α := toLex (s, k)

def empty : ScoreTable S F α m := ⟨S.new, S.new⟩

/-- One pair of `new`: both trees are written, a previous entry of the key stays in the inverse tree. -/
def insertBoth (t : ScoreTable S F α m) (k : α) (s : F) : ScoreTable S F α m :=
  ⟨S.insert t.score k s, S.insert t.inverse (entry s k) ()⟩

def approximateMedian [One F] (t : ScoreTable S F α m) : F :=
  match S.root t.inverse with
  | none => 1
  | some e => (ofLex e).1

def rescore (t : ScoreTable S F α m) (k : α) (old new : F) : ScoreTable S F α m :=
  ⟨S.set t.score k new, S.insert (S.remove t.inverse (entry old k)) (entry new k) ()⟩

def feedback [Mul F] [OfScientific F] (t : ScoreTable S F α m) (k : α) : ScoreTable S F α m :=
  match S.get t.score k with
  | some score => t.rescore k score (score * 0.01)
  | none => t

def addScore (t : ScoreTable S F α m) (k : α) (s : F) : ScoreTable S F α m :=
  let removed := match S.get t.score k with
    | some old => ⟨S.remove t.score k, S.remove t.inverse (entry old k)⟩
    | none => t
  insertBoth removed k s

def pruneLoop : Nat → ScoreTable S F α m → Except Panic (ScoreTable S F α m)
  | 0, t => .ok t
  | n + 1, t =>
    match S.removeRoot t.inverse with
    | none => .error .unwrapNone
    | some (e, inverse) => pruneLoop n ⟨S.remove t.score (ofLex e).2, inverse⟩

def prune (t : ScoreTable S F α m) (num : Nat) : Except Panic (ScoreTable S F α m) :=
  pruneLoop ((S.keys t.inverse).length - num) t

section Update

variable [One F] [Add F] [Sub F] [Mul F] [Div F] [NatCast F] [OfScientific F]

/-- One turn of the `iter_mut` loop. -/
def updateTracked (median : F) (acc : ScoreTable S F α m × Candidates F α) (k : α) :
    ScoreTable S F α m × Candidates F α :=
  match S.get acc.1.score k with
  | none => acc
  | some score =>
    let newScore := ((acc.2[k]?.filter (fun sc => 5 ≤ sc.count)).map ScoreUpdateCandidate.finalize).getD median
    (acc.1.rescore k score (ema score newScore), acc.2.erase k)

def insertCandidate (t : ScoreTable S F α m) (c : α × ScoreUpdateCandidate F) : ScoreTable S F α m :=
  if 5 ≤ c.2.count then t.insertBoth c.1 c.2.finalize else t

def updateScores (t : ScoreTable S F α m) (cands : Candidates F α) : ScoreTable S F α m :=
  let (t, rest) := (S.keys t.score).foldl (updateTracked t.approximateMedian) (t, cands)
  rest.toList.foldl insertCandidate t

end Update

end ScoreTable

/-! ## The model -/

structure IpSignerModel (S : Sokoban) (F : Type) [LinearOrder F] (maxSigners maxIps : Nat) where
  signer : ScoreTable S F Pubkey maxSigners
  ip : ScoreTable S F UInt32 maxIps

namespace IpSignerModel

variable {maxSigners maxIps : Nat}

def new (ipScores : List (UInt32 × F)) (signerScores : List (Pubkey × F)) : IpSignerModel S F maxSigners maxIps :=
  ⟨signerScores.foldl (fun t e => t.insertBoth e.1 e.2) ScoreTable.empty,
    ipScores.foldl (fun t e => t.insertBoth e.1 e.2) ScoreTable.empty⟩

def approximateMedianIpScore [One F] (model : IpSignerModel S F maxSigners maxIps) : F := model.ip.approximateMedian

def approximateMedianSignerScore [One F] (model : IpSignerModel S F maxSigners maxIps) : F :=
  model.signer.approximateMedian

def forward [One F] [Mul F] (model : IpSignerModel S F maxSigners maxIps) (ip : UInt32) (signer : Pubkey) : F :=
  (S.get model.ip.score ip).getD model.approximateMedianIpScore *
    (S.get model.signer.score signer).getD model.approximateMedianSignerScore

def prune (model : IpSignerModel S F maxSigners maxIps) (numIps numSigners : Nat) :
    Except Panic (IpSignerModel S F maxSigners maxIps) := do
  let ip ← model.ip.prune numIps
  let signer ← model.signer.prune numSigners
  return ⟨signer, ip⟩

def addIpScore (model : IpSignerModel S F maxSigners maxIps) (ip : UInt32) (score : F) :
    IpSignerModel S F maxSigners maxIps :=
  { model with ip := model.ip.addScore ip score }

def addSignerScore (model : IpSignerModel S F maxSigners maxIps) (signer : Pubkey) (score : F) :
    IpSignerModel S F maxSigners maxIps :=
  { model with signer := model.signer.addScore signer score }

def ipFeedback [Mul F] [OfScientific F] (model : IpSignerModel S F maxSigners maxIps) (ip : UInt32) :
    IpSignerModel S F maxSigners maxIps :=
  { model with ip := model.ip.feedback ip }

variable [One F] [Add F] [Sub F] [Mul F] [Div F] [NatCast F] [OfScientific F]

def updateModel (model : IpSignerModel S F maxSigners maxIps) (transactions : List (QoSTransactionMeta F))
    (pruneSigners pruneIps : Nat) : Except Panic (IpSignerModel S F maxSigners maxIps) :=
  let signerCandidates := Candidates.collect QoSTransactionMeta.signer transactions
  let ipCandidates := Candidates.collect QoSTransactionMeta.ip transactions
  prune ⟨model.signer.updateScores signerCandidates, model.ip.updateScores ipCandidates⟩ pruneIps pruneSigners

end IpSignerModel

end Qos
