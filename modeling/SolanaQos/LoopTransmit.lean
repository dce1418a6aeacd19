import SolanaQos.LoopRecent
/-!
# When a queued transaction goes out

`consume_transaction_packets` gives the transmitter a turn behind every accepted packet and nowhere else.  A pass over
the channels with nothing to accept sends nothing, however long ago the last batch was; with something to accept, the
first accepted packet sends a batch that is due (`sent_iff_acceptable`).  Which packet that is can be told from the
state before the pass: rejections leave alone what acceptance depends on.

`Due` is the state in which the comment of the source would have a transmission: the interval has passed at the next
reading of the clock, the limit lets something through, and the queue holds something fresh.  From it,
`pass_transmits_iff` decides for any four channels whether the pass transmits: exactly if one of the first thousand
packets of some channel is acceptable in the state before.

The two witnesses start from one queued packet, with the interval long past: a pass over empty channels leaves it where
it is, and a second packet sends it.
-/
namespace Qos

open Runs

/-! ## A batch that is due -/

section Batches

variable {F : Type} [LinearOrder F] {H : HeapCrate (ScoredTransaction F)} {n sigCacheSize : Nat}

def HoldsFresh (recentSignatures : Lru.Cache UInt64 Unit sigCacheSize) (h : MinMaxHeap H n) : Prop :=
  ∃ tx ∈ h.items, recentSignatures.contains tx.sigKey = false

theorem HoldsFresh.queue {recentSignatures : Lru.Cache UInt64 Unit sigCacheSize} {c c' : TransactionContainer H n}
    {tx : ScoredTransaction F} {stats stats' : Stats} (h : HoldsFresh recentSignatures c.priorityQueueHeap)
    (hlt : c.priorityQueueHeap.len < n) (htx : recentSignatures.contains tx.sigKey = false)
    (hqueue : c.queue tx stats = .ok (c', stats')) : HoldsFresh recentSignatures c'.priorityQueueHeap := by
  obtain ⟨held, hheld, hfresh⟩ := h
  obtain ⟨evicted, hitems, -⟩ := queue_spec hlt hqueue
  obtain ⟨rest, hrest⟩ := Multiset.exists_cons_of_mem hheld
  rw [hrest] at hitems
  cases evicted with
  | none =>
    rw [Option.elim_none, Multiset.add_zero] at hitems
    exact ⟨tx, by rw [← hitems]; exact Multiset.mem_cons_self tx _, htx⟩
  | some x =>
    rw [Option.elim_some] at hitems
    -- two fresh ones are two more than the queue would hold otherwise
    by_contra hnone
    let fresh : ScoredTransaction F → Prop := fun y => recentSignatures.contains y.sigKey = false
    have hzero : c'.priorityQueueHeap.items.countP fresh = 0 :=
      Multiset.countP_eq_zero.2 fun y hy hy' => hnone ⟨y, hy, hy'⟩
    have htwo : (tx ::ₘ held ::ₘ rest).countP fresh = rest.countP fresh + 1 + 1 := by
      rw [Multiset.countP_cons_of_pos (p := fresh) _ htx, Multiset.countP_cons_of_pos (p := fresh) _ hfresh]
    have hone := Multiset.countP_le_card fresh {x}
    rw [hitems, Multiset.countP_add, hzero] at htwo
    rw [Multiset.card_singleton] at hone
    omega

/-- **A batch that is due sends something**, if the queue holds something fresh. -/
theorem sent_of_due {sdk : Sdk} {c c' : TransactionContainer H n} {stats stats' : Stats}
    {recentSignatures : Lru.Cache UInt64 Unit sigCacheSize} {reads reads' : Nat} {batch : Batch F}
    (hlimit : 1 ≤ c.maxSend.toNat)
    (htick : TransactionContainer.sendIntervalMs ≤ (sdk.tsc reads - c.lastSend) / sdk.ticksPerMs)
    (hfresh : HoldsFresh recentSignatures c.priorityQueueHeap)
    (h : c.maybeTransmit sdk stats recentSignatures reads = .ok (batch, c', stats', reads')) : batch.sent ≠ [] := by
  obtain ⟨txMut, -, -, hturn⟩ := maybeTransmit_cases h
  cases hturn with
  | early hearly => exact absurd htick (UInt64.not_le.2 hearly)
  | tick batch heap stats₁ txMut₁ lastSend reads' htick hsend htimer =>
    intro hnil
    obtain ⟨hitems, -, hseen, -⟩ := sendBatch_spec recentSignatures _ _ _ _ _ _ _ _ hsend
    obtain ⟨-, -, -, -, hshort⟩ := sendBatch_order recentSignatures _ _ _ _ _ _ _ _ hsend
    have hempty := hshort (by rw [hnil]; exact hlimit)
    obtain ⟨tx, htx, hnew⟩ := hfresh
    rw [hitems, hnil, hempty, Multiset.add_zero, Multiset.coe_nil, Multiset.zero_add] at htx
    rw [hseen tx htx] at hnew
    cases hnew

end Batches

/-! ## A pass over the channels -/

namespace QosState

variable {S : Sokoban} {F : Type} [LinearOrder F] {H : HeapCrate (ScoredTransaction F)}

/-- **A transmission is due**: the batch limit and the interval allow it, and something fresh is queued. -/
structure Due (sdk : Sdk) (q : QosState S H) : Prop where
  limit : 1 ≤ q.container.maxSend.toNat
  tick : TransactionContainer.sendIntervalMs ≤ (sdk.tsc q.reads - q.container.lastSend) / sdk.ticksPerMs
  fresh : HoldsFresh q.recentSignatures q.container.priorityQueueHeap

theorem Due.ticks {sdk : Sdk} {q : QosState S H} (h : q.Due sdk) : sdk.ticksPerMs ≠ 0 := by
  intro hzero
  have htick := h.tick
  rw [hzero, UInt64.div_zero] at htick
  exact absurd htick (by decide)

variable [Zero F] [One F] [Add F] [Sub F] [Mul F] [Div F] [NatCast F] [OfScientific F]

omit [Add F] [Sub F] in
/-- **While a transmission is due, the first accepted packet of a channel makes it**, and nothing else does. -/
theorem sent_iff_acceptable {sdk : Sdk} : ∀ (packets : List Packet) {q q' : QosState S H} {events : List (Event F)},
    q.container.priorityQueueHeap.len < queueSize → q.Due sdk → run (packetTurn sdk) q packets = .ok (events, q') →
    (events.flatMap Event.sent ≠ [] ↔
      ∃ packet ∈ packets, Acceptable sdk (some q.recentSignatures) q.partialMetas packet)
  | [], q, q', events, _, _, h => by
    cases h
    exact iff_of_false (fun hne => hne rfl) (by rintro ⟨packet, hmem, -⟩; cases hmem)
  | packet :: packets, q, q', events, hlt, hdue, h => by
    obtain ⟨event, q₁, rest, h₁, h₂, rfl⟩ := run_cons_ok h
    rw [List.flatMap_cons]
    cases packetTurn_cases h₁ with
    | rejected r e hout hresult =>
      have hnot : ¬ Acceptable sdk (some q.recentSignatures) q.partialMetas packet := by
        intro hacc
        obtain ⟨tx, batch, hevent⟩ := queued_of_acceptable h₁ hacc
        cases hevent
      -- what acceptance depends on is as before
      have hsame : ∀ packet', Acceptable sdk (some q.recentSignatures) r.partialMetas packet' ↔
          Acceptable sdk (some q.recentSignatures) q.partialMetas packet' := by
        intro packet'
        unfold Acceptable
        simp only [hout.stored_hashes hresult]
      have ih := sent_iff_acceptable (q := { q with model := r.model, partialMetas := r.partialMetas, stats := r.stats })
        packets hlt ⟨hdue.limit, hdue.tick, hdue.fresh⟩ h₂
      simp only [hsame] at ih
      rw [show Event.sent (Event.packet packet (.error e) ({} : Batch F)) = [] from rfl, List.nil_append, ih]
      constructor
      · rintro ⟨packet', hmem, hacc⟩
        exact ⟨packet', List.mem_cons_of_mem _ hmem, hacc⟩
      · rintro ⟨packet', hmem, hacc⟩
        rcases List.mem_cons.1 hmem with rfl | hmem
        · exact absurd hacc hnot
        · exact ⟨packet', hmem, hacc⟩
    | queued r tx zeroScore reads queued sent stats stats' batch hout hresult hqueue htransmit =>
      obtain ⟨hacc, hseen⟩ := hout.acceptable hresult
      have hseen : q.recentSignatures.contains tx.sigKey = false := by simpa [seenRecently] using hseen
      obtain ⟨hlast, hmax⟩ := queue_frame hqueue
      have hsent : batch.sent ≠ [] := by
        refine sent_of_due ?_ ?_ (hdue.fresh.queue hlt hseen hqueue) htransmit
        · rw [hmax]
          exact hdue.limit
        · rw [hlast]
          exact hdue.tick
      refine iff_of_true ?_ ⟨packet, List.mem_cons_self, hacc⟩
      intro hnil
      exact hsent (List.map_eq_nil_iff.1 (List.append_eq_nil_iff.1 hnil).1)

/-- **When a due transmission is made.**  In every state the loop reaches in which at least one packet may be sent, the
interval has passed and something fresh is queued, a pass over the four channels returns, and it pushes something to the
producer exactly if one of the channels delivers a packet that is acceptable in that state. -/
theorem pass_transmits_iff (sdk : Sdk) (args : Args) (calls : List Call) (events : List (List (Event F)))
    (q : QosState S H) (hrun : run (call sdk args) (init sdk args) calls = .ok (events, q)) (hdue : q.Due sdk)
    (tpu fwd re1 re2 : List Packet) :
    ∃ events' q' txMut txMut' new,
      run (consumeTransactionPackets sdk) q [tpu, fwd, re1, re2] = .ok (events', q') ∧
      q.container.transmitter = some txMut ∧ q'.container.transmitter = some txMut' ∧
      txMut'.pushed = txMut.pushed ++ new ∧
      (new ≠ [] ↔ ∃ packet ∈ [tpu, fwd, re1, re2].flatMap (List.take 1000),
        Acceptable sdk (some q.recentSignatures) q.partialMetas packet) := by
  have hticks := hdue.ticks
  have hready := ready_run hticks hrun
  obtain ⟨messages, hturns⟩ := run_calls hrun
  have hrecent : q.Recent sdk ([] ++ events.flatten) := run_hist (Recent sdk)
    (fun trace q m event q' hq hturn => (hq.turn hturn).1) messages [] _ _ _ (recent_init sdk args) hturns
  obtain ⟨events', q', hpass, -⟩ := run_total (fun _ => True) Ready
    (fun q pops _ hq => hq.call hticks args (.transactionPackets pops) trivial) [tpu, fwd, re1, re2] q
    (fun _ _ => trivial) hready
  have hflat := run_expand (List.take 1000) (fun _ _ => rfl) _ _ _ _ hpass
  have hrecent' := run_hist (Recent sdk) (fun trace q p event q' hq hturn => (hq.packetTurn (packetTurn_cases hturn)).1)
    _ _ _ _ _ hrecent hflat
  obtain ⟨txMut, htx, hpushed⟩ := hrecent.pushed
  obtain ⟨txMut', htx', hpushed'⟩ := hrecent'.pushed
  refine ⟨events', q', txMut, txMut', events'.flatten.flatMap Event.sent, hpass, htx, htx', ?_,
    sent_iff_acceptable _ hready.bounded hdue hflat⟩
  rw [hpushed', hpushed, List.flatMap_append]

/-! ## A queued transaction and an idle network -/

theorem due_after_packet (a : Ipv4Addr) :
    ∃ events q, run (call steadySdk ⟨16, 16, 1000⟩) (init steadySdk ⟨16, 16, 1000⟩ : QosState sortedTree scoreHeap)
        [.transactionPackets [signedPacket a 0]] = .ok (events, q) ∧ q.Due steadySdk ∧
      (∀ key, q.recentSignatures.contains key = false) ∧ ∀ key ≠ 0, q.partialMetas.lookup key = none := by
  obtain ⟨tx, q, hturn, -, hacc, hitems, hlast, hmax, hreads, -⟩ :=
    first_packet (S := sortedTree) (F := ℚ) (H := scoreHeap) a
  have hseen : ∀ key, q.recentSignatures.contains key = false := by
    intro key
    rw [hacc.recentSignatures]
    exact recentSignatures_init key
  obtain ⟨partialMeta, -, -, -, habsent⟩ := hacc.stored_signed (by decide)
  refine ⟨[[.packet (signedPacket a 0) (.ok tx) {}]], q, ?_, ⟨?_, ?_, tx, ?_, hseen _⟩, hseen, fun key hkey => ?_⟩
  · simp only [run, call, consumeTransactionPackets, List.take_succ_cons, List.take_nil, hturn, ok_bind]
  · rw [hmax]
    decide
  · rw [hlast, hreads]
    decide
  · rw [hitems]
    exact Multiset.mem_singleton_self tx
  · exact habsent key hkey (Lru.Cache.lookup_new _ key)

/-- With nothing in the channels the transaction stays where it is. -/
theorem pass_sends_nothing :
    ∃ events q, run (call steadySdk ⟨16, 16, 1000⟩) (init steadySdk ⟨16, 16, 1000⟩ : QosState sortedTree scoreHeap)
        [.transactionPackets [signedPacket ⟨#v[1, 2, 3, 4]⟩ 0]] = .ok (events, q) ∧ q.Due steadySdk ∧
      run (consumeTransactionPackets steadySdk) q [[], [], [], []] = .ok ([[], [], [], []], q) := by
  obtain ⟨events, q, hrun, hdue, -⟩ := due_after_packet ⟨#v[1, 2, 3, 4]⟩
  exact ⟨events, q, hrun, hdue, rfl⟩

/-- The second packet sends the first one's transaction. -/
theorem pass_transmits_iff_second :
    ∃ events q events' q' txMut txMut' new,
      run (call steadySdk ⟨16, 16, 1000⟩) (init steadySdk ⟨16, 16, 1000⟩ : QosState sortedTree scoreHeap)
        [.transactionPackets [signedPacket ⟨#v[1, 2, 3, 4]⟩ 0]] = .ok (events, q) ∧
      run (consumeTransactionPackets steadySdk) q [[], [signedPacket ⟨#v[1, 2, 3, 4]⟩ 1], [], []] = .ok (events', q') ∧
      q.container.transmitter = some txMut ∧ q'.container.transmitter = some txMut' ∧
      txMut'.pushed = txMut.pushed ++ new ∧ new ≠ [] := by
  obtain ⟨events, q, hrun, hdue, hseen, habsent⟩ := due_after_packet ⟨#v[1, 2, 3, 4]⟩
  obtain ⟨events', q', txMut, txMut', new, hpass, htx, htx', hpushed, hiff⟩ :=
    pass_transmits_iff steadySdk _ _ events q hrun hdue [] [signedPacket ⟨#v[1, 2, 3, 4]⟩ 1] [] []
  refine ⟨events, q, events', q', txMut, txMut', new, hrun, hpass, htx, htx', hpushed, hiff.2 ?_⟩
  refine ⟨signedPacket ⟨#v[1, 2, 3, 4]⟩ 1, List.mem_singleton.2 rfl, ?_⟩
  exact signedPacket_acceptable _ (by decide) (hseen _) (habsent _ (by decide))

end QosState

end Qos
