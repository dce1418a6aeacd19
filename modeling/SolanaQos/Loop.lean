import SolanaQos.Banking
import SolanaQos.Feedback
/-!
# The qos loop (`qos/src/main.rs`)

The loop calls four functions, each of which drains a channel.  A call is given the messages its pops deliver, in
order: any list, since producers run beside the loop and a channel may hold anything.  `main` makes its calls in a
fixed rotation; a run here is any sequence of calls, so what holds of every run holds of the rotation.

The bodies of the four loops are the turns (`turn`), one for each kind of message:
* `packetTurn` processes a packet, queues what is accepted and gives the transmitter its turn;
* `recentSignatureTurn` puts the key of a confirmed signature into its cache;
* `remainingMetaTurn` merges a report into the partial meta of its hash, ten times the value if the transaction was
  scheduled, and hands 401 entries to the model;
* `sigverifyTurn` penalises the source of a packet.

Each returns an event that records what it did: the result, the batch that went out, the entry that was completed, the
batch that was handed over.  The four calls take their messages from the front of their channel; two have no bound, the
one on packets stops after a thousand, and the one on remaining metas after an update.

The ends of each kind of turn are an inductive type with its inversion lemma (`packetTurn_cases`,
`remainingMetaTurn_cases`, `turn_cases`); the invariants of the modules behind this one are proved from these.
`run_calls` makes a run of calls a run of turns, so an invariant of one turn is one of all runs.
-/
namespace Qos

open Runs

/-- `LRUCache::<_, _, { 1024 * 1024 }>`. -/
def cacheSize : Nat := 1024 * 1024

/-- `MinMaxHeap<ScoredTransaction, 16384>`. -/
def queueSize : Nat := 16384

structure Args where
  maxSigners : Nat
  maxIps : Nat
  targetPps : UInt64

variable {S : Sokoban} {F : Type} [LinearOrder F] {H : HeapCrate (ScoredTransaction F)}

structure QosState (S : Sokoban) {F : Type} [LinearOrder F] (H : HeapCrate (ScoredTransaction F)) where
  model : IpSignerModel S F 16384 16384
  partialMetas : Lru.Cache UInt64 QoSPartialMeta cacheSize
  completeMetas : List (QoSTransactionMeta F)
  container : TransactionContainer H queueSize
  recentSignatures : Lru.Cache UInt64 Unit cacheSize
  stats : Stats
  reads : Nat

inductive Message
  | packet (packet : Packet)
  | recentSignature (signature : Signature)
  | remainingMeta (remainingMeta : QoSRemainingMeta)
  | sigverifyFailed (packet : Packet)

/-- What a turn did with its message. -/
inductive Event (F : Type)
  | packet (packet : Packet) (result : Except PacketProcessorError (ScoredTransaction F)) (batch : Batch F)
  | recentSignature (signature : Signature)
  -- the entry pushed to the complete metas, and the batch handed to the model
  | remainingMeta (remainingMeta : QoSRemainingMeta) (completed : Option (QoSTransactionMeta F))
      (updated : Option (List (QoSTransactionMeta F)))
  | sigverifyFailed (packet : Packet)

def Event.message {F : Type} : Event F → Message
  | .packet p _ _ => .packet p
  | .recentSignature s => .recentSignature s
  | .remainingMeta m _ _ => .remainingMeta m
  | .sigverifyFailed p => .sigverifyFailed p

inductive Call
  | transactionPackets (pops : List Packet)
  | recentSignatures (pops : List Signature)
  | remainingMetas (pops : List QoSRemainingMeta)
  | sigverifySignals (pops : List Packet)

def Call.messages : Call → List Message
  | .transactionPackets pops => pops.map .packet
  | .recentSignatures pops => pops.map .recentSignature
  | .remainingMetas pops => pops.map .remainingMeta
  | .sigverifySignals pops => pops.map .sigverifyFailed

namespace QosState

variable [Zero F] [One F] [Add F] [Sub F] [Mul F] [Div F] [NatCast F] [OfScientific F]

def init (sdk : Sdk) (args : Args) : QosState S H where
  model := IpSignerModel.new [] []
  partialMetas := Lru.Cache.new (by decide)
  completeMetas := []
  container := TransactionContainer.new sdk (some {}) args.targetPps 0
  recentSignatures := Lru.Cache.new (by decide)
  stats := {}
  reads := 1

def packetTurn (sdk : Sdk) (q : QosState S H) (packet : Packet) : Except Panic (Event F × QosState S H) := do
  let r ← tryProcessPacket sdk packet (some q.recentSignatures) q.model q.partialMetas q.stats
  let q := { q with model := r.model, partialMetas := r.partialMetas, stats := r.stats }
  match r.result with
  | .error e => return (.packet packet (.error e) {}, q)
  | .ok scoredTransaction =>
    let stats := if scoredTransaction.score = 0 then { q.stats with zeroScore := q.stats.zeroScore + 1 } else q.stats
    let (container, stats) ← q.container.queue scoredTransaction stats
    let (batch, container, stats, reads) ← container.maybeTransmit sdk stats q.recentSignatures q.reads
    return (.packet packet (.ok scoredTransaction) batch,
      { q with container := container, stats := stats, reads := reads })

def recentSignatureTurn (q : QosState S H) (signature : Signature) : Event F × QosState S H :=
  (.recentSignature signature, { q with
    recentSignatures := (q.recentSignatures.put (u64Key signature) ()).2
    stats := { q.stats with recentSignaturesReceived := q.stats.recentSignaturesReceived + 1 } })

/-- The entry a partial meta is completed to: ten times the value if the transaction was scheduled. -/
def completeEntry (partialMeta : QoSPartialMeta) (remainingMeta : QoSRemainingMeta) : QoSTransactionMeta F :=
  let entry := partialMeta.merge remainingMeta
  if 0 < remainingMeta.executionNanos then { entry with value := entry.value * 10.0 } else entry

def remainingMetaTurn (args : Args) (q : QosState S H) (remainingMeta : QoSRemainingMeta) :
    Except Panic (Event F × QosState S H) :=
  match q.partialMetas.pop remainingMeta.packetHash with
  | (some (_, partialMeta), partialMetas) => do
    let entry := completeEntry partialMeta remainingMeta
    let completeMetas := q.completeMetas ++ [entry]
    let q := { q with
      partialMetas := partialMetas
      completeMetas := completeMetas
      stats := { q.stats with completed := q.stats.completed + 1 } }
    if 400 < completeMetas.length then
      let model ← q.model.updateModel completeMetas args.maxSigners args.maxIps
      return (.remainingMeta remainingMeta (some entry) (some completeMetas),
        { q with model := model, completeMetas := [] })
    else
      return (.remainingMeta remainingMeta (some entry) none, q)
  -- the partial meta was dropped before it could be merged
  | (none, partialMetas) => return (.remainingMeta remainingMeta none none, { q with partialMetas := partialMetas })

def sigverifyTurn (q : QosState S H) (packet : Packet) : Except Panic (Event F × QosState S H) := do
  return (.sigverifyFailed packet, { q with model := ← processFailedSigverify packet q.model })

def turn (sdk : Sdk) (args : Args) (q : QosState S H) : Message → Except Panic (Event F × QosState S H)
  | .packet packet => q.packetTurn sdk packet
  | .recentSignature signature => return q.recentSignatureTurn signature
  | .remainingMeta remainingMeta => q.remainingMetaTurn args remainingMeta
  | .sigverifyFailed packet => q.sigverifyTurn packet

/-! ## The four calls -/

/-- At most a thousand pops. -/
def consumeTransactionPackets (sdk : Sdk) (q : QosState S H) (pops : List Packet) :
    Except Panic (List (Event F) × QosState S H) :=
  run (packetTurn sdk) q (pops.take 1000)

def consumeRecentSignatures (q : QosState S H) (pops : List Signature) : Except Panic (List (Event F) × QosState S H) :=
  run (fun q signature => return q.recentSignatureTurn signature) q pops

/-- Until the channel is empty or the model was updated. -/
def consumeRemainingMetas (args : Args) : QosState S H → List QoSRemainingMeta →
    Except Panic (List (Event F) × QosState S H)
  | q, [] => return ([], q)
  | q, m :: ms => do
    let (event, q) ← q.remainingMetaTurn args m
    match event with
    | .remainingMeta _ _ (some _) => return ([event], q)
    | _ =>
      let (events, q) ← consumeRemainingMetas args q ms
      return (event :: events, q)

def consumeSigverifySignals (q : QosState S H) (pops : List Packet) : Except Panic (List (Event F) × QosState S H) :=
  run sigverifyTurn q pops

def call (sdk : Sdk) (args : Args) (q : QosState S H) : Call → Except Panic (List (Event F) × QosState S H)
  | .transactionPackets pops => q.consumeTransactionPackets sdk pops
  | .recentSignatures pops => q.consumeRecentSignatures pops
  | .remainingMetas pops => q.consumeRemainingMetas args pops
  | .sigverifySignals pops => q.consumeSigverifySignals pops

/-! ## What a turn can do -/

/-- **The two ends of a packet's turn**: rejected, or queued and followed by a transmission. -/
inductive PacketTurn (sdk : Sdk) (q : QosState S H) (packet : Packet) : Event F → QosState S H → Prop
  | rejected (r : Processed S F 16384 16384 cacheSize) (e : PacketProcessorError)
      (hout : Outcome sdk packet (some q.recentSignatures) q.model q.partialMetas q.stats r)
      (hresult : r.result = .error e) :
    PacketTurn sdk q packet (.packet packet (.error e) {})
      { q with model := r.model, partialMetas := r.partialMetas, stats := r.stats }
  | queued (r : Processed S F 16384 16384 cacheSize) (tx : ScoredTransaction F) (zeroScore reads : Nat)
      (queued sent : TransactionContainer H queueSize) (stats stats' : Stats) (batch : Batch F)
      (hout : Outcome sdk packet (some q.recentSignatures) q.model q.partialMetas q.stats r)
      (hresult : r.result = .ok tx)
      (hqueue : q.container.queue tx { r.stats with zeroScore := zeroScore } = .ok (queued, stats))
      (htransmit : queued.maybeTransmit sdk stats q.recentSignatures q.reads = .ok (batch, sent, stats', reads)) :
    PacketTurn sdk q packet (.packet packet (.ok tx) batch)
      { q with model := r.model, partialMetas := r.partialMetas, container := sent, stats := stats', reads := reads }

omit [Add F] [Sub F] in
theorem packetTurn_cases {sdk : Sdk} {q q' : QosState S H} {packet : Packet} {event : Event F}
    (h : q.packetTurn sdk packet = .ok (event, q')) : PacketTurn sdk q packet event q' := by
  unfold packetTurn at h
  obtain ⟨r, hr, h⟩ := bind_eq_ok h
  have hout := tryProcessPacket_outcome hr
  cases hresult : r.result with
  | error e =>
    simp only [hresult] at h
    cases h
    exact .rejected r e hout hresult
  | ok tx =>
    simp only [hresult] at h
    obtain ⟨⟨queued, stats⟩, hqueue, h⟩ := bind_eq_ok h
    obtain ⟨⟨batch, sent, stats', reads⟩, htransmit, h⟩ := bind_eq_ok h
    cases h
    by_cases hzero : tx.score = 0
    · rw [if_pos hzero] at hqueue
      exact .queued r tx _ reads queued sent stats stats' batch hout hresult hqueue htransmit
    · rw [if_neg hzero] at hqueue
      exact .queued r tx r.stats.zeroScore reads queued sent stats stats' batch hout hresult hqueue htransmit

/-- **The ends of a remaining meta's turn**: unknown hash, completed, or completed and followed by an update. -/
inductive RemainingMetaTurn (args : Args) (q : QosState S H) (m : QoSRemainingMeta) :
    Event F → QosState S H → Prop
  | absent (habsent : q.partialMetas.contains m.packetHash = false) :
    RemainingMetaTurn args q m (.remainingMeta m none none) q
  | completed (partialMeta : QoSPartialMeta)
      (hlookup : q.partialMetas.lookup m.packetHash = some partialMeta)
      (hlen : q.completeMetas.length < 400) :
    RemainingMetaTurn args q m (.remainingMeta m (some (completeEntry partialMeta m)) none)
      { q with
        partialMetas := (q.partialMetas.pop m.packetHash).2
        completeMetas := q.completeMetas ++ [completeEntry partialMeta m]
        stats := { q.stats with completed := q.stats.completed + 1 } }
  | updated (partialMeta : QoSPartialMeta) (model : IpSignerModel S F 16384 16384)
      (hlookup : q.partialMetas.lookup m.packetHash = some partialMeta)
      (hlen : 400 ≤ q.completeMetas.length)
      (hmodel : q.model.updateModel (q.completeMetas ++ [completeEntry partialMeta m]) args.maxSigners args.maxIps =
        .ok model) :
    RemainingMetaTurn args q m
      (.remainingMeta m (some (completeEntry partialMeta m)) (some (q.completeMetas ++ [completeEntry partialMeta m])))
      { q with
        model := model
        partialMetas := (q.partialMetas.pop m.packetHash).2
        completeMetas := []
        stats := { q.stats with completed := q.stats.completed + 1 } }

omit [Zero F] in
theorem remainingMetaTurn_cases {args : Args} {q q' : QosState S H} {m : QoSRemainingMeta} {event : Event F}
    (h : q.remainingMetaTurn args m = .ok (event, q')) : RemainingMetaTurn args q m event q' := by
  unfold remainingMetaTurn at h
  cases hc : q.partialMetas.contains m.packetHash with
  | false =>
    rw [Lru.Cache.pop_of_absent hc] at h
    cases h
    exact .absent hc
  | true =>
    obtain ⟨partialMeta, hlookup, hpop⟩ := Lru.Cache.pop_of_present hc
    have he : q.partialMetas.pop m.packetHash =
        (some (m.packetHash, partialMeta), (q.partialMetas.pop m.packetHash).2) := by rw [← hpop]
    rw [he] at h
    by_cases hlen : 400 < (q.completeMetas ++ [completeEntry partialMeta m]).length
    · simp only [hlen, if_true] at h
      obtain ⟨model, hmodel, h⟩ := bind_eq_ok h
      cases h
      exact .updated partialMeta model hlookup (by simpa [Nat.lt_succ_iff] using hlen) hmodel
    · simp only [hlen, if_false] at h
      cases h
      exact .completed partialMeta hlookup (by simpa using hlen)

/-- **The ends of a turn**, by its message. -/
inductive Turn (sdk : Sdk) (args : Args) (q : QosState S H) : Message → Event F → QosState S H → Prop
  | packet {packet : Packet} {event : Event F} {q' : QosState S H} (hturn : PacketTurn sdk q packet event q') :
    Turn sdk args q (.packet packet) event q'
  | recentSignature (signature : Signature) :
    Turn sdk args q (.recentSignature signature) (.recentSignature signature) (q.recentSignatureTurn signature).2
  | remainingMeta {m : QoSRemainingMeta} {event : Event F} {q' : QosState S H}
      (hturn : RemainingMetaTurn args q m event q') : Turn sdk args q (.remainingMeta m) event q'
  | sigverifyFailed {packet : Packet} (model : IpSignerModel S F 16384 16384)
      (hmodel : processFailedSigverify packet q.model = .ok model) :
    Turn sdk args q (.sigverifyFailed packet) (.sigverifyFailed packet) { q with model := model }

theorem turn_cases {sdk : Sdk} {args : Args} {q q' : QosState S H} {message : Message} {event : Event F}
    (h : q.turn sdk args message = .ok (event, q')) : Turn sdk args q message event q' := by
  cases message with
  | packet packet => exact .packet (packetTurn_cases h)
  | recentSignature signature =>
    cases h
    exact .recentSignature signature
  | remainingMeta m => exact .remainingMeta (remainingMetaTurn_cases h)
  | sigverifyFailed packet =>
    obtain ⟨model, hmodel, h⟩ := bind_eq_ok h
    cases h
    exact .sigverifyFailed model hmodel

theorem turn_message {sdk : Sdk} {args : Args} {q q' : QosState S H} {message : Message} {event : Event F}
    (h : q.turn sdk args message = .ok (event, q')) : event.message = message := by
  cases turn_cases h with
  | packet hturn => cases hturn <;> rfl
  | recentSignature signature => rfl
  | remainingMeta hturn => cases hturn <;> rfl
  | sigverifyFailed model hmodel => rfl

/-! ## A run of calls is a run of turns -/

theorem run_messages {sdk : Sdk} {args : Args} {messages : List Message} {q q' : QosState S H} {events : List (Event F)}
    (h : run (turn sdk args) q messages = .ok (events, q')) : events.map Event.message = messages := by
  have hall := run_forall₂ (P := fun message event => message = Event.message event)
    (fun q message event q' hturn => (turn_message hturn).symm) h
  rw [← List.forall₂_map_right_iff (R := (· = ·)), List.forall₂_eq_eq_eq] at hall
  exact hall.symm

theorem consumeRemainingMetas_turns (sdk : Sdk) {args : Args} : ∀ (ms : List QoSRemainingMeta) (q q' : QosState S H)
    (events : List (Event F)), q.consumeRemainingMetas args ms = .ok (events, q') →
    ∃ messages, messages <+: ms.map .remainingMeta ∧ run (turn sdk args) q messages = .ok (events, q')
  | [], q, q', events, h => by
    cases h
    exact ⟨[], List.prefix_refl _, rfl⟩
  | m :: ms, q, q', events, h => by
    rw [consumeRemainingMetas] at h
    obtain ⟨⟨event, q₁⟩, h₁, h⟩ := bind_eq_ok h
    have hturn : q.turn sdk args (.remainingMeta m) = .ok (event, q₁) := h₁
    rw [List.map_cons]
    simp only at h
    split at h
    · cases h
      exact ⟨[.remainingMeta m], (List.prefix_cons_inj _).2 List.nil_prefix, by simp [run, hturn]⟩
    · obtain ⟨⟨rest, q₂⟩, h₂, h⟩ := bind_eq_ok h
      obtain ⟨messages, hfront, hrun⟩ := consumeRemainingMetas_turns sdk ms q₁ q₂ rest h₂
      cases h
      exact ⟨.remainingMeta m :: messages, (List.prefix_cons_inj _).2 hfront, by simp [run, hturn, hrun]⟩

/-- **A call takes messages from the front of its channel**, and gives each of them a turn. -/
theorem call_turns {sdk : Sdk} {args : Args} (q : QosState S H) (c : Call) (events : List (Event F))
    (q' : QosState S H) (h : q.call sdk args c = .ok (events, q')) :
    ∃ messages, messages <+: c.messages ∧ run (turn sdk args) q messages = .ok (events, q') := by
  cases c with
  | transactionPackets pops =>
    refine ⟨(pops.take 1000).map .packet, (List.take_prefix 1000 pops).map _, ?_⟩
    rw [← h]
    exact (run_map Message.packet (fun _ _ => rfl) (pops.take 1000) q).symm
  | recentSignatures pops =>
    refine ⟨pops.map .recentSignature, List.prefix_refl _, ?_⟩
    rw [← h]
    exact (run_map Message.recentSignature (fun _ _ => rfl) pops q).symm
  | remainingMetas pops => exact consumeRemainingMetas_turns sdk pops q q' events h
  | sigverifySignals pops =>
    refine ⟨pops.map .sigverifyFailed, List.prefix_refl _, ?_⟩
    rw [← h]
    exact (run_map Message.sigverifyFailed (fun _ _ => rfl) pops q).symm

theorem call_messages {sdk : Sdk} {args : Args} {q q' : QosState S H} {c : Call} {events : List (Event F)}
    (h : q.call sdk args c = .ok (events, q')) : events.map Event.message <+: c.messages := by
  obtain ⟨messages, hfront, hrun⟩ := call_turns q c events q' h
  rwa [run_messages hrun]

/-- **A run of calls is a run of turns**, with the same events in the same order. -/
theorem run_calls {sdk : Sdk} {args : Args} {calls : List Call} {q q' : QosState S H} {events : List (List (Event F))}
    (h : run (call sdk args) q calls = .ok (events, q')) :
    ∃ messages, run (turn sdk args) q messages = .ok (events.flatten, q') := by
  refine run_refine (fun q c events q' hcall => ?_) calls q events q' h
  obtain ⟨messages, -, hrun⟩ := call_turns q c events q' hcall
  exact ⟨messages, hrun⟩

end QosState

end Qos
