import SolanaQos.Loop
/-!
# The loop panics on one kind of message only

With a transmitter and a calibrated time stamp counter every call returns, as long as the packets reported as failed
come from IPv4 sources: `process_failed_sigverify` is `unreachable!` on any other (`Call.deliverable`).

`Ready` is what the functions that the loop calls rely on: a transmitter, a queue below its bound, and a model whose
two tables agree, without which a removal in the update would meet a missing entry; the calibration is the machine's.
A turn on a deliverable message returns (`Ready.turn_ok`), a turn that returns keeps the state ready whatever the
message was (`Ready.turn`), and so every run of deliverable calls returns (`qos_total`).
-/
namespace Qos

open Runs

def Packet.fromIpv4 (packet : Packet) : Prop := ∃ ipv4, packet.metadata.addr = .v4 ipv4

/-- The messages the loop can take. -/
def Call.deliverable : Call → Prop
  | .sigverifySignals pops => ∀ packet ∈ pops, packet.fromIpv4
  | _ => True

theorem Outcome.consistent {S : Sokoban} {F : Type} [LinearOrder F] [Mul F] [OfScientific F]
    {signers ips cacheSize sigCacheSize : Nat} {sdk : Sdk} {packet : Packet}
    {recentSignatures : Option (Lru.Cache UInt64 Unit sigCacheSize)} {model : IpSignerModel S F signers ips}
    {partialMetas : Lru.Cache UInt64 QoSPartialMeta cacheSize} {stats : Stats} {r : Processed S F signers ips cacheSize}
    (h : Outcome sdk packet recentSignatures model partialMetas stats r) (hmodel : model.Consistent) :
    r.model.Consistent := by
  rcases h.model_cases with hsame | ⟨ipv4, hfed⟩
  · rw [hsame]
    exact hmodel
  · rw [hfed]
    exact hmodel.ipFeedback _

namespace QosState

variable {S : Sokoban} {F : Type} [LinearOrder F] {H : HeapCrate (ScoredTransaction F)}

structure Ready (q : QosState S H) : Prop where
  model : q.model.Consistent
  transmitter : ∃ txMut, q.container.transmitter = some txMut
  bounded : q.container.priorityQueueHeap.len < queueSize

theorem ready_init (sdk : Sdk) (args : Args) : (init sdk args : QosState S H).Ready where
  model := IpSignerModel.consistent_new
  transmitter := ⟨{}, rfl⟩
  bounded := by
    show (MinMaxHeap.new : MinMaxHeap H queueSize).len < queueSize
    rw [MinMaxHeap.len_new]
    decide

variable [Zero F] [One F] [Add F] [Sub F] [Mul F] [Div F] [NatCast F] [OfScientific F]

omit [Add F] [Sub F] in
theorem Ready.packetTurn {sdk : Sdk} (hticks : sdk.ticksPerMs ≠ 0) {q : QosState S H} (h : q.Ready) (packet : Packet) :
    ∃ event q', q.packetTurn sdk packet = .ok (event, q') ∧ q'.Ready := by
  obtain ⟨txMut, htx⟩ := h.transmitter
  obtain ⟨r, hr⟩ := tryProcessPacket_total sdk packet (some q.recentSignatures) q.model q.partialMetas q.stats
  have hmodel := (tryProcessPacket_outcome hr).consistent h.model
  unfold QosState.packetTurn
  rw [hr, ok_bind]
  cases hresult : r.result with
  | error e => exact ⟨_, _, rfl, hmodel, ⟨txMut, htx⟩, h.bounded⟩
  | ok tx =>
    simp only
    generalize (if tx.score = 0 then { r.stats with zeroScore := r.stats.zeroScore + 1 } else r.stats) = stats
    obtain ⟨c₁, stats₁, hqueue⟩ := queue_total h.bounded tx stats
    obtain ⟨evicted, -, -, hsame, -⟩ := queue_spec h.bounded hqueue
    obtain ⟨batch, c', stats', reads', htransmit⟩ :=
      maybeTransmit_total hticks (hsame.trans htx) stats₁ q.recentSignatures q.reads
    obtain ⟨-, txMut', -, hlt, htx', -⟩ := queue_maybeTransmit h.bounded htx hqueue htransmit
    rw [hqueue, ok_bind]
    simp only
    rw [htransmit, ok_bind]
    exact ⟨_, _, rfl, hmodel, ⟨txMut', htx'⟩, hlt⟩

omit [Zero F] in
theorem Ready.remainingMetaTurn {q : QosState S H} (h : q.Ready) (args : Args) (m : QoSRemainingMeta) :
    ∃ event q', q.remainingMetaTurn args m = .ok (event, q') ∧ q'.Ready := by
  unfold QosState.remainingMetaTurn
  split
  · rename_i hash partialMeta partialMetas hpop
    simp only
    split
    · obtain ⟨model', hmodel', hconsistent⟩ := h.model.updateModel
        (q.completeMetas ++ [completeEntry partialMeta m]) args.maxSigners args.maxIps
      rw [hmodel', ok_bind]
      exact ⟨_, _, rfl, hconsistent, h.transmitter, h.bounded⟩
    · exact ⟨_, _, rfl, h.model, h.transmitter, h.bounded⟩
  · exact ⟨_, _, rfl, h.model, h.transmitter, h.bounded⟩

omit [Zero F] in
theorem Ready.consumeRemainingMetas (args : Args) : ∀ (ms : List QoSRemainingMeta) {q : QosState S H}, q.Ready →
    ∃ events q', q.consumeRemainingMetas args ms = .ok (events, q') ∧ q'.Ready
  | [], q, h => ⟨[], q, rfl, h⟩
  | m :: ms, q, h => by
    obtain ⟨event, q₁, h₁, hready⟩ := h.remainingMetaTurn args m
    obtain ⟨events, q₂, h₂, hready₂⟩ := Ready.consumeRemainingMetas args ms hready
    rw [QosState.consumeRemainingMetas, h₁, ok_bind]
    simp only
    split
    · exact ⟨_, _, rfl, hready⟩
    · rw [h₂, ok_bind]
      exact ⟨_, _, rfl, hready₂⟩

theorem Ready.call {sdk : Sdk} (hticks : sdk.ticksPerMs ≠ 0) (args : Args) {q : QosState S H} (h : q.Ready) (c : Call)
    (hc : c.deliverable) : ∃ events q', q.call sdk args c = .ok (events, q') ∧ q'.Ready := by
  cases c with
  | transactionPackets pops =>
    exact run_total (fun _ => True) Ready (fun q packet _ hq => hq.packetTurn hticks packet) _ q (fun _ _ => trivial) h
  | recentSignatures pops =>
    refine run_total (fun _ => True) Ready ?_ pops q (fun _ _ => trivial) h
    intro q signature _ hq
    exact ⟨_, _, rfl, hq.model, hq.transmitter, hq.bounded⟩
  | remainingMetas pops => exact Ready.consumeRemainingMetas args pops h
  | sigverifySignals pops =>
    refine run_total Packet.fromIpv4 Ready ?_ pops q hc h
    rintro q packet ⟨ipv4, haddr⟩ hq
    unfold sigverifyTurn processFailedSigverify
    rw [haddr]
    exact ⟨_, _, rfl, hq.model.ipFeedback _, hq.transmitter, hq.bounded⟩

theorem Ready.turn {sdk : Sdk} (hticks : sdk.ticksPerMs ≠ 0) {args : Args} {q q' : QosState S H} {message : Message}
    {event : Event F} (h : q.Ready) (hturn : q.turn sdk args message = .ok (event, q')) : q'.Ready := by
  cases message with
  | packet packet =>
    obtain ⟨event', q₁, h₁, hready⟩ := h.packetTurn hticks packet
    cases h₁.symm.trans hturn
    exact hready
  | recentSignature signature =>
    cases hturn
    exact ⟨h.model, h.transmitter, h.bounded⟩
  | remainingMeta m =>
    obtain ⟨event', q₁, h₁, hready⟩ := h.remainingMetaTurn args m
    cases h₁.symm.trans hturn
    exact hready
  | sigverifyFailed packet =>
    obtain ⟨model, hmodel, hturn⟩ := bind_eq_ok hturn
    cases hturn
    obtain ⟨ip, rfl⟩ := processFailedSigverify_ok hmodel
    exact ⟨h.model.ipFeedback ip, h.transmitter, h.bounded⟩

theorem Ready.turn_ok {sdk : Sdk} (hticks : sdk.ticksPerMs ≠ 0) (args : Args) {q : QosState S H} (h : q.Ready)
    {message : Message} (hmessage : ∀ packet, message = .sigverifyFailed packet → packet.fromIpv4) :
    ∃ event q', q.turn sdk args message = .ok (event, q') := by
  cases message with
  | packet packet =>
    obtain ⟨event, q', hturn, -⟩ := h.packetTurn hticks packet
    exact ⟨event, q', hturn⟩
  | recentSignature signature => exact ⟨_, _, rfl⟩
  | remainingMeta m =>
    obtain ⟨event, q', hturn, -⟩ := h.remainingMetaTurn args m
    exact ⟨event, q', hturn⟩
  | sigverifyFailed packet =>
    obtain ⟨ipv4, haddr⟩ := hmessage packet rfl
    show ∃ event q', q.sigverifyTurn packet = .ok (event, q')
    unfold sigverifyTurn processFailedSigverify
    rw [haddr]
    exact ⟨_, _, rfl⟩

theorem ready_run {sdk : Sdk} (hticks : sdk.ticksPerMs ≠ 0) {args : Args} {calls : List Call}
    {events : List (List (Event F))} {q : QosState S H}
    (hrun : run (call sdk args) (init sdk args) calls = .ok (events, q)) : q.Ready := by
  obtain ⟨messages, hturns⟩ := run_calls hrun
  exact run_inv Ready (fun q m event q' hq hturn => hq.turn hticks hturn) messages _ _ _ (ready_init sdk args) hturns

/-- **Every run of deliverable calls returns.** -/
theorem qos_total (sdk : Sdk) (hticks : sdk.ticksPerMs ≠ 0) (args : Args) (calls : List Call)
    (hcalls : ∀ c ∈ calls, c.deliverable) :
    ∃ events q, run (call sdk args) (init sdk args : QosState S H) calls = .ok (events, q) := by
  have hcall : ∀ (q : QosState S H) (c : Call), c.deliverable → q.Ready →
      ∃ events q', q.call sdk args c = .ok (events, q') ∧ q'.Ready := fun q c hc hq => hq.call hticks args c hc
  obtain ⟨events, q, hrun, -⟩ := run_total Call.deliverable Ready hcall calls _ hcalls (ready_init sdk args)
  exact ⟨events, q, hrun⟩

end QosState

end Qos
