import SolanaQos.LoopTransmit
/-!
# Which packets go out

A packet that is accepted is queued once.  What the transmitter pushes comes out of the queue, so it was accepted
before, and one acceptance goes out at most once: the pushed packets and the queued ones are among the accepted ones,
counted with their repetitions (`Carried`).

What was accepted was delivered: the events of a call are about the front of its channel, so the packets accepted in it
are a sublist of those the channel held (`call_accepted`), and over a run a part of all that the channels delivered
(`calls_accepted`).  Together, no packet goes out more often than it came in (`transmits_delivered_once`).  The
statement is about the producer and the queue, not about events.
-/
namespace Qos

open Runs

variable {S : Sokoban} {F : Type} [LinearOrder F] {H : HeapCrate (ScoredTransaction F)}

def Event.accepted : Event F → Option Packet
  | .packet p (.ok _) _ => some p
  | _ => none

omit [LinearOrder F] in
theorem Event.accepted_message {event : Event F} {packet : Packet} (h : event.accepted = some packet) :
    event.message = .packet packet := by
  unfold Event.accepted at h
  split at h
  · cases h
    rfl
  · cases h

theorem Outcome.result_packet {signers ips cacheSize sigCacheSize : Nat} [Mul F] [OfScientific F] {sdk : Sdk}
    {packet : Packet} {recentSignatures : Option (Lru.Cache UInt64 Unit sigCacheSize)}
    {model : IpSignerModel S F signers ips} {partialMetas : Lru.Cache UInt64 QoSPartialMeta cacheSize} {stats : Stats}
    {r : Processed S F signers ips cacheSize} (h : Outcome sdk packet recentSignatures model partialMetas stats r)
    {tx : ScoredTransaction F} (htx : r.result = .ok tx) : tx.packet = packet := by
  cases h with
  | admitted ipv4 view key partialMeta score hread hseen hstore hput =>
    cases htx
    rfl
  | _ => cases htx

def Message.transaction : Message → Option Packet
  | .packet p => some p
  | _ => none

def Call.packets : Call → List Packet
  | .transactionPackets pops => pops
  | _ => []

namespace QosState

def queuedPackets (q : QosState S H) : Multiset Packet := q.container.priorityQueueHeap.items.map ScoredTransaction.packet

/-- **What went out and what is queued was accepted**, each acceptance once. -/
structure Carried (trace : List (Event F)) (q : QosState S H) : Prop where
  bounded : q.container.priorityQueueHeap.len < queueSize
  pushed : ∃ txMut, q.container.transmitter = some txMut ∧ txMut.pushed = trace.flatMap Event.sent
  carried : ((trace.flatMap Event.sent : List Packet) : Multiset Packet) + q.queuedPackets ≤
    (trace.filterMap Event.accepted : List Packet)

theorem carried_init (sdk : Sdk) (args : Args) : (init sdk args : QosState S H).Carried [] where
  bounded := by
    show (MinMaxHeap.new : MinMaxHeap H queueSize).len < queueSize
    rw [MinMaxHeap.len_new]
    decide
  pushed := ⟨{}, rfl, rfl⟩
  carried := by
    have hempty : (init sdk args : QosState S H).queuedPackets = 0 := by
      show Multiset.map _ (MinMaxHeap.new : MinMaxHeap H queueSize).items = 0
      rw [Multiset.map_eq_zero, ← Multiset.card_eq_zero, ← MinMaxHeap.len_eq, MinMaxHeap.len_new]
    rw [hempty]
    exact le_refl _

theorem Carried.quiet {trace : List (Event F)} {q q' : QosState S H} {event : Event F} (h : q.Carried trace)
    (hcontainer : q'.container = q.container) (hsent : event.sent = []) (haccepted : event.accepted = none) :
    q'.Carried (trace ++ [event]) := by
  obtain ⟨txMut, htx, hpushed⟩ := h.pushed
  refine ⟨hcontainer ▸ h.bounded, ⟨txMut, hcontainer ▸ htx, ?_⟩, ?_⟩
  · rw [flatMap_sent_append, hsent, List.append_nil, hpushed]
  · rw [flatMap_sent_append, hsent, List.append_nil, filterMap_append_one, haccepted, Option.toList_none,
      List.append_nil]
    unfold queuedPackets
    rw [hcontainer]
    exact h.carried

variable [Zero F] [One F] [Add F] [Sub F] [Mul F] [Div F] [NatCast F] [OfScientific F]

omit [Zero F] [One F] [Add F] [Sub F] [Div F] [NatCast F] in
theorem Carried.packetTurn {sdk : Sdk} {trace : List (Event F)} {q q' : QosState S H} {packet : Packet}
    {event : Event F} (h : q.Carried trace) (hturn : PacketTurn sdk q packet event q') :
    q'.Carried (trace ++ [event]) := by
  cases hturn with
  | rejected r e hout hresult => exact h.quiet rfl rfl rfl
  | queued r tx zeroScore reads queued sent stats stats' batch hout hresult hqueue htransmit =>
    obtain ⟨txMut, htx, hpushed⟩ := h.pushed
    obtain ⟨evicted, txMut', hitems, hlt, htx', hpushed', -⟩ := queue_maybeTransmit h.bounded htx hqueue htransmit
    refine ⟨hlt, ⟨txMut', htx', ?_⟩, ?_⟩
    · rw [hpushed', hpushed, flatMap_sent_append]
      rfl
    · -- of the queue and the new packet some are sent, some dropped or evicted, and the rest is the new queue
      have hall : ((batch.sent.map ScoredTransaction.packet : List Packet) : Multiset Packet) +
          sent.priorityQueueHeap.items.map ScoredTransaction.packet ≤ packet ::ₘ q.queuedPackets := by
        have hmap := congrArg (Multiset.map ScoredTransaction.packet) hitems
        rw [Multiset.map_cons, hout.result_packet hresult, Multiset.map_add, Multiset.map_add, Multiset.map_add,
          Multiset.map_coe] at hmap
        unfold queuedPackets
        rw [hmap, add_right_comm _ (Multiset.map _ (batch.dropped : Multiset (ScoredTransaction F))), add_assoc]
        exact Multiset.le_add_right _ _
      calc (((trace ++ [_]).flatMap Event.sent : List Packet) : Multiset Packet) +
            sent.priorityQueueHeap.items.map ScoredTransaction.packet
          = ((trace.flatMap Event.sent : List Packet) : Multiset Packet) +
            (((batch.sent.map ScoredTransaction.packet : List Packet) : Multiset Packet) +
              sent.priorityQueueHeap.items.map ScoredTransaction.packet) := by
            rw [flatMap_sent_append, ← Multiset.coe_add, add_assoc]
            rfl
        _ ≤ ((trace.flatMap Event.sent : List Packet) : Multiset Packet) + packet ::ₘ q.queuedPackets :=
            add_le_add_right hall _
        _ = packet ::ₘ (((trace.flatMap Event.sent : List Packet) : Multiset Packet) + q.queuedPackets) :=
            Multiset.add_cons _ _ _
        _ ≤ packet ::ₘ ((trace.filterMap Event.accepted : List Packet) : Multiset Packet) :=
            Multiset.cons_le_cons _ h.carried
        _ = (((trace ++ [_]).filterMap Event.accepted : List Packet) : Multiset Packet) := by
            rw [filterMap_append_one, Multiset.cons_coe, Multiset.coe_eq_coe]
            exact (List.perm_append_singleton packet _).symm

theorem Carried.turn {sdk : Sdk} {args : Args} {trace : List (Event F)} {q q' : QosState S H} {message : Message}
    {event : Event F} (h : q.Carried trace) (hturn : q.turn sdk args message = .ok (event, q')) :
    q'.Carried (trace ++ [event]) := by
  cases turn_cases hturn with
  | packet hturn => exact h.packetTurn hturn
  | recentSignature signature => exact h.quiet rfl rfl rfl
  | remainingMeta hturn => cases hturn <;> exact h.quiet rfl rfl rfl
  | sigverifyFailed model hmodel => exact h.quiet rfl rfl rfl

/-! ## What was accepted was delivered -/

omit [LinearOrder F] [Zero F] [One F] [Add F] [Sub F] [Mul F] [Div F] [NatCast F] [OfScientific F] in
theorem accepted_sublist : ∀ events : List (Event F),
    (events.filterMap Event.accepted).Sublist ((events.map Event.message).filterMap Message.transaction)
  | [] => List.Sublist.refl _
  | event :: events => by
    have ih := accepted_sublist events
    rw [List.map_cons]
    cases h : event.accepted with
    | none =>
      rw [List.filterMap_cons_none h]
      exact ih.trans ((List.sublist_cons_self _ _).filterMap _)
    | some packet =>
      rw [List.filterMap_cons_some h, Event.accepted_message h]
      exact ih.cons_cons packet

theorem call_accepted {sdk : Sdk} {args : Args} {q q' : QosState S H} {c : Call} {events : List (Event F)}
    (h : q.call sdk args c = .ok (events, q')) : (events.filterMap Event.accepted).Sublist c.packets := by
  have hpackets : c.messages.filterMap Message.transaction = c.packets := by
    cases c with
    | transactionPackets pops =>
      simp only [Call.messages, List.filterMap_map]
      exact List.filterMap_some
    | _ =>
      simp only [Call.messages, List.filterMap_map]
      exact List.filterMap_none _
  rw [← hpackets]
  exact (accepted_sublist events).trans ((call_messages h).sublist.filterMap _)

theorem calls_accepted {sdk : Sdk} {args : Args} : ∀ (calls : List Call) (q q' : QosState S H)
    (events : List (List (Event F))), run (call sdk args) q calls = .ok (events, q') →
    (events.flatten.filterMap Event.accepted).Sublist (calls.flatMap Call.packets)
  | [], q, q', events, h => by
    cases h
    exact List.Sublist.refl _
  | c :: calls, q, q', events, h => by
    obtain ⟨es, q₁, rest, h₁, h₂, rfl⟩ := run_cons_ok h
    rw [List.flatten_cons, List.filterMap_append, List.flatMap_cons]
    exact (call_accepted h₁).append (calls_accepted calls q₁ q' rest h₂)

/-- **Nothing goes out that did not come in, and no delivery goes out twice.**  In every state the loop reaches, whatever
was consumed in whatever order, the packets pushed to the producer and those still queued are among the packets the
transaction channels delivered, counted with their repetitions. -/
theorem transmits_delivered_once (sdk : Sdk) (args : Args) (calls : List Call) (events : List (List (Event F)))
    (q : QosState S H) (hrun : run (call sdk args) (init sdk args) calls = .ok (events, q)) :
    ∃ txMut, q.container.transmitter = some txMut ∧
      (txMut.pushed : Multiset Packet) + q.queuedPackets ≤ (calls.flatMap Call.packets : List Packet) := by
  obtain ⟨messages, hturns⟩ := run_calls hrun
  have h : q.Carried ([] ++ events.flatten) := run_hist Carried
    (fun trace q m event q' hq hturn => hq.turn hturn) messages [] _ _ _ (carried_init sdk args) hturns
  obtain ⟨txMut, htx, hpushed⟩ := h.pushed
  refine ⟨txMut, htx, ?_⟩
  rw [hpushed]
  exact le_trans h.carried (calls_accepted calls _ _ _ hrun).subperm

theorem second_packet_sends (a : Ipv4Addr) :
    ∃ e₀ e₁ q₁ q₂, (init steadySdk ⟨16, 16, 1000⟩ : QosState sortedTree scoreHeap).packetTurn steadySdk (signedPacket a 0) =
        .ok (e₀, q₁) ∧ q₁.packetTurn steadySdk (signedPacket a 1) = .ok (e₁, q₂) ∧ e₁.sent ≠ [] := by
  obtain ⟨events, q₁, hrun, hdue, hseen, habsent⟩ := due_after_packet a
  obtain ⟨es, q, rest, hcall, hrest, rfl⟩ := run_cons_ok hrun
  cases hrest
  obtain ⟨e₀, q', rest, h₀, hrest, rfl⟩ := run_cons_ok
    (show run (packetTurn steadySdk) _ [signedPacket a 0] = .ok (es, q₁) from hcall)
  cases hrest
  have hticks : steadySdk.ticksPerMs ≠ 0 := by decide
  have hready := ready_run hticks hrun
  have hacc := signedPacket_acceptable (i := 1) a (by decide) (hseen _) (habsent _ (by decide))
  obtain ⟨e₁, q₂, h₁, -⟩ := hready.packetTurn hticks (signedPacket a 1)
  have hrun₁ : run (packetTurn steadySdk) q₁ [signedPacket a 1] = .ok ([e₁], q₂) := by simp only [run, h₁, ok_bind]
  have hsent := (sent_iff_acceptable _ hready.bounded hdue hrun₁).2 ⟨_, List.mem_singleton.2 rfl, hacc⟩
  exact ⟨e₀, e₁, q₁, q₂, h₀, h₁, by simpa using hsent⟩

/-- The second packet sends the first one, or both, and nothing else. -/
theorem transmits_delivered_once_two :
    ∃ (events : List (List (Event ℚ))) (q : QosState sortedTree scoreHeap) (txMut : Producer),
      run (call steadySdk ⟨16, 16, 1000⟩) (init steadySdk ⟨16, 16, 1000⟩)
        [.transactionPackets [signedPacket ⟨#v[1, 2, 3, 4]⟩ 0, signedPacket ⟨#v[1, 2, 3, 4]⟩ 1]] = .ok (events, q) ∧
      q.container.transmitter = some txMut ∧ events.flatten.flatMap Event.sent ≠ [] ∧
      (txMut.pushed : Multiset Packet) + q.queuedPackets ≤
        ([signedPacket ⟨#v[1, 2, 3, 4]⟩ 0, signedPacket ⟨#v[1, 2, 3, 4]⟩ 1] : List Packet) := by
  obtain ⟨e₀, e₁, q₁, q₂, h₀, h₁, hsent⟩ := second_packet_sends ⟨#v[1, 2, 3, 4]⟩
  have hrun : run (call steadySdk ⟨16, 16, 1000⟩) (init steadySdk ⟨16, 16, 1000⟩ : QosState sortedTree scoreHeap)
      [.transactionPackets [signedPacket ⟨#v[1, 2, 3, 4]⟩ 0, signedPacket ⟨#v[1, 2, 3, 4]⟩ 1]] = .ok ([[e₀, e₁]], q₂) := by
    simp only [run, call, consumeTransactionPackets, List.take_succ_cons, List.take_nil, h₀, h₁, ok_bind]
  obtain ⟨txMut, htx, hle⟩ := transmits_delivered_once _ _ _ _ _ hrun
  exact ⟨_, q₂, txMut, hrun, htx, by simp [hsent], hle⟩

end QosState

end Qos
