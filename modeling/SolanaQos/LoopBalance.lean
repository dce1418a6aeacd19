import SolanaQos.LoopRecent
/-!
# No packet is lost or counted twice

Every packet that enters is counted once by `total_packets` and is afterwards in exactly one place: under one of the
seven rejection counters, evicted from the queue, dropped at dequeue, transmitted, or still queued.  `Stats.settled`
adds up all but the last, and `Balanced` says that it makes the total together with the queue, and that what was
counted as transmitted is what the producer got.

A rejection is counted once (`Outcome.settled_error`), an acceptance not at all (`Outcome.settled_ok`); what is
accepted moves into the queue, and out of it under one of three counters.  The counters are natural numbers, as the
claim has them; each is a 64-bit word in the source.

The witness is `mixed_run`: of its four packets one is rejected, one dropped at dequeue, one transmitted, and one still
queued.
-/
namespace Qos

open Runs

/-- The packets the counters account for. -/
def Stats.settled (s : Stats) : Nat :=
  s.nonIpv4 + s.invalidMetaSize + s.failedSanitize + s.failedView + s.invalidPacketData + s.recentlyProcessed +
    s.duplicatePackets + s.leakedPriority + s.recentlyProcessedQueued + s.bankingTransmissions

section Outcome

variable {S : Sokoban} {F : Type} [LinearOrder F] [One F] [Mul F] [Div F] [NatCast F] [OfScientific F]
  {signers ips cacheSize sigCacheSize : Nat} {sdk : Sdk} {packet : Packet}
  {recentSignatures : Option (Lru.Cache UInt64 Unit sigCacheSize)} {model : IpSignerModel S F signers ips}
  {partialMetas : Lru.Cache UInt64 QoSPartialMeta cacheSize} {stats : Stats} {r : Processed S F signers ips cacheSize}

omit [One F] [Div F] [NatCast F] in
theorem Outcome.settled_error {e : PacketProcessorError}
    (h : Outcome sdk packet recentSignatures model partialMetas stats r) (hresult : r.result = .error e) :
    r.stats.totalPackets = stats.totalPackets + 1 ∧ r.stats.settled = stats.settled + 1 ∧
      r.stats.bankingTransmissions = stats.bankingTransmissions := by
  cases h with
  | admitted => cases hresult
  | _ =>
    refine ⟨rfl, ?_, rfl⟩
    simp only [Stats.settled]
    omega

omit [One F] [Div F] [NatCast F] in
theorem Outcome.settled_ok {tx : ScoredTransaction F}
    (h : Outcome sdk packet recentSignatures model partialMetas stats r) (hresult : r.result = .ok tx) :
    r.stats = { stats with totalPackets := stats.totalPackets + 1 } := by
  cases h with
  | admitted => rfl
  | _ => cases hresult

end Outcome

namespace QosState

variable {S : Sokoban} {F : Type} [LinearOrder F] {H : HeapCrate (ScoredTransaction F)}

/-- **The balance**: what came in is settled or queued, and what was transmitted was pushed. -/
structure Balanced (q : QosState S H) : Prop where
  total : q.stats.totalPackets = q.stats.settled + q.container.priorityQueueHeap.len
  pushed : ∃ txMut, q.container.transmitter = some txMut ∧ q.stats.bankingTransmissions = txMut.pushed.length
  bounded : q.container.priorityQueueHeap.len < queueSize

theorem balanced_init (sdk : Sdk) (args : Args) : (init sdk args : QosState S H).Balanced where
  total := by
    show 0 = Stats.settled {} + (MinMaxHeap.new : MinMaxHeap H queueSize).len
    rw [MinMaxHeap.len_new]
    rfl
  pushed := ⟨{}, rfl, rfl⟩
  bounded := by
    show (MinMaxHeap.new : MinMaxHeap H queueSize).len < queueSize
    rw [MinMaxHeap.len_new]
    decide

variable [Zero F] [One F] [Add F] [Sub F] [Mul F] [Div F] [NatCast F] [OfScientific F]

omit [Zero F] [One F] [Add F] [Sub F] [Div F] [NatCast F] in
theorem Balanced.packetTurn {sdk : Sdk} {q q' : QosState S H} {packet : Packet} {event : Event F} (h : q.Balanced)
    (hturn : PacketTurn sdk q packet event q') : q'.Balanced := by
  have hbal := h.total
  obtain ⟨txMut, htx, hpushed⟩ := h.pushed
  cases hturn with
  | rejected r e hout hresult =>
    obtain ⟨htotal, hsettled, hbank⟩ := hout.settled_error hresult
    refine ⟨?_, ⟨txMut, htx, hbank.trans hpushed⟩, h.bounded⟩
    show r.stats.totalPackets = r.stats.settled + q.container.priorityQueueHeap.len
    omega
  | queued r tx zeroScore reads queued sent stats stats' batch hout hresult hqueue htransmit =>
    obtain ⟨evicted, txMut', hitems, hlt, htx', hpushed', -, -, hfinal⟩ :=
      queue_maybeTransmit h.bounded htx hqueue htransmit
    rw [hout.settled_ok hresult] at hfinal
    -- the queue gains one and gives back what was evicted, sent or dropped
    have hcard : q.container.priorityQueueHeap.len + 1 = batch.sent.length + batch.dropped.length +
        sent.priorityQueueHeap.len + evicted.toList.length := by
      have hcard := congrArg Multiset.card hitems
      rw [Multiset.card_cons, Multiset.card_add, Multiset.card_add, Multiset.card_add, Multiset.coe_card,
        Multiset.coe_card, ← MinMaxHeap.len_eq, ← MinMaxHeap.len_eq] at hcard
      cases evicted <;> exact hcard
    refine ⟨?_, ⟨txMut', htx', ?_⟩, hlt⟩
    · show stats'.totalPackets = stats'.settled + sent.priorityQueueHeap.len
      rw [hfinal]
      simp only [Stats.settled] at hbal ⊢
      omega
    · show stats'.bankingTransmissions = txMut'.pushed.length
      rw [hfinal, hpushed', List.length_append, List.length_map, ← hpushed]

theorem Balanced.turn {sdk : Sdk} {args : Args} {q q' : QosState S H} {message : Message} {event : Event F}
    (h : q.Balanced) (hturn : q.turn sdk args message = .ok (event, q')) : q'.Balanced := by
  cases turn_cases hturn with
  | packet hturn => exact h.packetTurn hturn
  | recentSignature signature => exact ⟨h.total, h.pushed, h.bounded⟩
  | remainingMeta hturn =>
    cases hturn with
    | absent habsent => exact h
    | completed partialMeta hlookup hlen => exact ⟨h.total, h.pushed, h.bounded⟩
    | updated partialMeta model hlookup hlen hmodel => exact ⟨h.total, h.pushed, h.bounded⟩
  | sigverifyFailed model hmodel => exact ⟨h.total, h.pushed, h.bounded⟩

/-- **No packet is lost or counted twice**, after any sequence of calls with any messages and any clock. -/
theorem qos_balance (sdk : Sdk) (args : Args) (calls : List Call) (events : List (List (Event F)))
    (q : QosState S H) (hrun : run (call sdk args) (init sdk args) calls = .ok (events, q)) :
    q.stats.totalPackets = q.stats.nonIpv4 + q.stats.invalidMetaSize + q.stats.failedSanitize + q.stats.failedView +
        q.stats.invalidPacketData + q.stats.recentlyProcessed + q.stats.duplicatePackets + q.stats.leakedPriority +
        q.stats.recentlyProcessedQueued + q.stats.bankingTransmissions + q.container.priorityQueueHeap.len ∧
      ∃ txMut, q.container.transmitter = some txMut ∧ q.stats.bankingTransmissions = txMut.pushed.length := by
  obtain ⟨messages, hturns⟩ := run_calls hrun
  have h := run_inv Balanced (fun q m event q' hq hturn => hq.turn hturn) messages _ _ _ (balanced_init sdk args)
    hturns
  exact ⟨h.total, h.pushed⟩

/-- Of four packets one is rejected, one dropped, one transmitted and one still queued. -/
theorem qos_balance_mixed :
    ∃ (events : List (List (Event ℚ))) (q : QosState sortedTree scoreHeap) (txMut : Producer),
      run (call steadySdk ⟨16, 16, 1000⟩) (init steadySdk ⟨16, 16, 1000⟩) (mixedCalls ⟨#v[1, 2, 3, 4]⟩) = .ok (events, q) ∧
      q.stats.recentlyProcessed = 1 ∧ q.stats.recentlyProcessedQueued = 1 ∧ q.stats.bankingTransmissions = 1 ∧
      q.container.priorityQueueHeap.len = 1 ∧
      q.stats.totalPackets = q.stats.nonIpv4 + q.stats.invalidMetaSize + q.stats.failedSanitize + q.stats.failedView +
        q.stats.invalidPacketData + q.stats.recentlyProcessed + q.stats.duplicatePackets + q.stats.leakedPriority +
        q.stats.recentlyProcessedQueued + q.stats.bankingTransmissions + q.container.priorityQueueHeap.len ∧
      q.container.transmitter = some txMut ∧ q.stats.bankingTransmissions = txMut.pushed.length := by
  obtain ⟨tx₀, tx₁, tx₃, q, hrun, -, hlen, hseen, hdropped, hsent⟩ :=
    mixed_run (S := sortedTree) (F := ℚ) (H := scoreHeap) ⟨#v[1, 2, 3, 4]⟩
  obtain ⟨htotal, txMut, htx, hpushed⟩ := qos_balance _ _ _ _ q hrun
  exact ⟨_, q, txMut, hrun, hseen, hdropped, hsent, hlen, htotal, htx, hpushed⟩

end QosState

end Qos
