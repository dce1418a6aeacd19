import SolanaQos.Feedback
import SolanaQos.Loop
/-!
# Which transactions a batch takes (`maybe_transmit` in `qos-core/src/banking.rs`)

The pipeline pops in descending order, so whatever it has popped scores at least as high as everything it left, pushed
or dropped alike; it stops before the next pop when `max_send` were let through, and else only on an empty queue.

`BestBatch` says what that makes of a tick: it sends the fresh transactions that score highest, as many as the limit
lets through or all there are, in descending order; it drops the confirmed ones that stand between them, and nothing
else.  The heap of the queue is any heap with its laws, so ties are broken as it likes.

The limit is `max_send`, what the target rate makes of one interval; a full queue is at most half of what the channel
behind it can hold.  One poll keeps the order (`pollFresh_order`), the loop by induction on the limit
(`sendBatch_order`), and the theorem `maybeTransmit_best` reads the result off for any reachable queue, any clock and
any set of recent signatures.
-/
namespace Qos

open Runs

variable {F : Type} [LinearOrder F] {H : HeapCrate (ScoredTransaction F)} {n sigCacheSize : Nat}

def ipcQosToSigCap : Nat := 32768

def Above (popped : List (ScoredTransaction F)) (h : MinMaxHeap H n) : Prop :=
  ∀ tx ∈ popped, ∀ left ∈ h.items, left.score ≤ tx.score

theorem pollFresh_order (recentSignatures : Lru.Cache UInt64 Unit sigCacheSize) (h : MinMaxHeap H n) (stats : Stats) :
    Above (pollFresh recentSignatures h stats).2.1 (pollFresh recentSignatures h stats).2.2.1 ∧
      Above (pollFresh recentSignatures h stats).1.toList (pollFresh recentSignatures h stats).2.2.1 ∧
      ((pollFresh recentSignatures h stats).1 = none → (pollFresh recentSignatures h stats).2.2.1.items = 0) := by
  fun_induction pollFresh recentSignatures h stats with
  | case1 h stats h' e =>
    obtain ⟨rfl, hz⟩ := MinMaxHeap.next_none e
    exact ⟨by simp [Above], by simp [Above], fun _ => hz⟩
  | case2 h stats tx h' e hseen r ih =>
    obtain ⟨-, hmax⟩ := MinMaxHeap.next_some e
    have hrest := pollFresh_spec recentSignatures h'
      { stats with recentlyProcessedQueued := stats.recentlyProcessedQueued + 1 }
    obtain ⟨hdropped, hfound, hempty⟩ := ih
    refine ⟨?_, hfound, hempty⟩
    intro tx' htx' left hleft
    rcases List.mem_cons.1 htx' with rfl | htx'
    · -- what is left after the rest of the poll was held before it
      refine hmax left ?_
      rw [hrest.1]
      exact Multiset.mem_add.2 (Or.inr hleft)
    · exact hdropped tx' htx' left hleft
  | case3 h stats tx h' e hseen =>
    obtain ⟨-, hmax⟩ := MinMaxHeap.next_some e
    refine ⟨by simp [Above], ?_, fun he => by cases he⟩
    intro tx' htx' left hleft
    obtain rfl : tx' = tx := by simpa using htx'
    exact hmax left hleft

/-- **One batch is the best there is**: it is sorted, everything popped is above everything left, and it is cut short
only by an empty queue. -/
theorem sendBatch_order (recentSignatures : Lru.Cache UInt64 Unit sigCacheSize) :
    ∀ (k : Nat) (h : MinMaxHeap H n) (stats : Stats) (txMut : Producer) (batch : Batch F) (h' : MinMaxHeap H n)
      (stats' : Stats) (txMut' : Producer), sendBatch recentSignatures k h stats txMut = (batch, h', stats', txMut') →
    batch.sent.Pairwise (fun a b => b.score ≤ a.score) ∧ Above batch.sent h' ∧ Above batch.dropped h' ∧
      batch.sent.length ≤ k ∧ (batch.sent.length < k → h'.items = 0)
  | 0, h, stats, txMut, batch, h', stats', txMut', e => by
    cases e
    exact ⟨List.Pairwise.nil, by simp [Above], by simp [Above], le_refl _, fun hlt => absurd hlt (lt_irrefl _)⟩
  | k + 1, h, stats, txMut, batch, h', stats', txMut', e => by
    have horder := pollFresh_order recentSignatures h stats
    rcases sendBatch_succ e with ⟨hp, hnil, rfl⟩ | ⟨tx, dropped, h₁, stats₁, batch₂, hp, hrest, hcons, happend⟩
    · rw [hp] at horder
      obtain ⟨hdropped, -, hempty⟩ := horder
      rw [hnil]
      exact ⟨List.Pairwise.nil, by simp [Above], hdropped, Nat.zero_le _, fun _ => hempty rfl⟩
    · rw [hp] at horder
      obtain ⟨hdropped, hfound, -⟩ := horder
      have hmax : ∀ left ∈ h₁.items, left.score ≤ tx.score := hfound tx (by simp)
      obtain ⟨hsorted₂, hsent₂, hdropped₂, hle₂, hshort₂⟩ := sendBatch_order recentSignatures k _ _ _ _ _ _ _ hrest
      have hitems₂ := (sendBatch_spec recentSignatures k _ _ _ _ _ _ _ hrest).1
      have hheld : ∀ left ∈ h'.items, left ∈ h₁.items := by
        intro left hleft
        rw [hitems₂]
        exact Multiset.mem_add.2 (Or.inr hleft)
      have hsent : ∀ tx' ∈ batch₂.sent, tx' ∈ h₁.items := by
        intro tx' htx'
        rw [hitems₂]
        exact Multiset.mem_add.2 (Or.inl (Multiset.mem_add.2 (Or.inl htx')))
      rw [hcons, happend]
      refine ⟨List.pairwise_cons.2 ⟨fun tx' htx' => hmax tx' (hsent tx' htx'), hsorted₂⟩, ?_, ?_, ?_, ?_⟩
      · intro tx' htx' left hleft
        rcases List.mem_cons.1 htx' with rfl | htx'
        · exact hmax left (hheld left hleft)
        · exact hsent₂ tx' htx' left hleft
      · intro tx' htx' left hleft
        rcases List.mem_append.1 htx' with htx' | htx'
        · exact hdropped tx' htx' left (hheld left hleft)
        · exact hdropped₂ tx' htx' left hleft
      · exact Nat.succ_le_succ hle₂
      · intro hlt
        exact hshort₂ (Nat.lt_of_succ_lt_succ hlt)

/-- The queued transactions that were not confirmed meanwhile. -/
def freshItems (recentSignatures : Lru.Cache UInt64 Unit sigCacheSize) (h : MinMaxHeap H n) :
    Multiset (ScoredTransaction F) :=
  h.items.filter fun tx => recentSignatures.contains tx.sigKey = false

/-- **What a tick of `maybe_transmit` sends and drops.** -/
structure BestBatch (recentSignatures : Lru.Cache UInt64 Unit sigCacheSize) (c : TransactionContainer H n)
    (stats : Stats) (batch : Batch F) (c' : TransactionContainer H n) (stats' : Stats) : Prop where
  -- exactly so many, all of them fresh, best first, and above every fresh one that stays
  count : batch.sent.length = min c.maxSend.toNat (freshItems recentSignatures c.priorityQueueHeap).card
  fresh : (batch.sent : Multiset (ScoredTransaction F)) ≤ freshItems recentSignatures c.priorityQueueHeap
  sorted : batch.sent.Pairwise (fun a b => b.score ≤ a.score)
  best : ∀ tx ∈ batch.sent, ∀ left ∈ freshItems recentSignatures c'.priorityQueueHeap, left.score ≤ tx.score
  -- whatever left the queue was pushed, or was seen recently and counted
  items : c.priorityQueueHeap.items = (batch.sent : Multiset (ScoredTransaction F)) +
    (batch.dropped : Multiset (ScoredTransaction F)) + c'.priorityQueueHeap.items
  seen : ∀ tx ∈ batch.dropped, recentSignatures.contains tx.sigKey = true ∧
    ∀ left ∈ c'.priorityQueueHeap.items, left.score ≤ tx.score
  counted : stats' = { stats with
    recentlyProcessedQueued := stats.recentlyProcessedQueued + batch.dropped.length
    bankingTransmissions := stats.bankingTransmissions + batch.sent.length }
  -- the pushes are published by the one `sync` behind them
  pushed : ∃ txMut txMut', c.transmitter = some txMut ∧ c'.transmitter = some txMut' ∧
    txMut'.pushed = txMut.pushed ++ batch.sent.map ScoredTransaction.packet ∧ txMut'.synced = txMut'.pushed.length

omit [LinearOrder F] in
theorem filter_coe_eq_self {p : ScoredTransaction F → Prop} [DecidablePred p] {l : List (ScoredTransaction F)}
    (h : ∀ tx ∈ l, p tx) : Multiset.filter p (l : Multiset (ScoredTransaction F)) = l :=
  Multiset.filter_eq_self.2 (fun tx htx => h tx (Multiset.mem_coe.1 htx))

theorem sendBatch_best {recentSignatures : Lru.Cache UInt64 Unit sigCacheSize} {c : TransactionContainer H n}
    {stats stats' : Stats} {txMut txMut' : Producer} {batch : Batch F} {heap : MinMaxHeap H n}
    (hsend : sendBatch recentSignatures c.maxSend.toNat c.priorityQueueHeap stats txMut = (batch, heap, stats', txMut')) :
    batch.sent.length = min c.maxSend.toNat (freshItems recentSignatures c.priorityQueueHeap).card ∧
      (batch.sent : Multiset (ScoredTransaction F)) ≤ freshItems recentSignatures c.priorityQueueHeap := by
  obtain ⟨hitems, hfresh, hseen, -, -⟩ := sendBatch_spec recentSignatures _ _ _ _ _ _ _ _ hsend
  obtain ⟨-, -, -, hle, hshort⟩ := sendBatch_order recentSignatures _ _ _ _ _ _ _ _ hsend
  -- the fresh ones are the pushed ones and those that stay
  have hsplit : freshItems recentSignatures c.priorityQueueHeap =
      (batch.sent : Multiset (ScoredTransaction F)) + freshItems recentSignatures heap := by
    unfold freshItems
    rw [hitems, Multiset.filter_add, Multiset.filter_add, filter_coe_eq_self hfresh]
    have hnone : Multiset.filter (fun tx => recentSignatures.contains tx.sigKey = false)
        (batch.dropped : Multiset (ScoredTransaction F)) = 0 := by
      refine Multiset.filter_eq_nil.2 (fun tx htx => ?_)
      rw [hseen tx (Multiset.mem_coe.1 htx)]
      decide
    rw [hnone, add_zero]
  refine ⟨?_, by rw [hsplit]; exact Multiset.le_add_right _ _⟩
  have hcard := congrArg Multiset.card hsplit
  rw [Multiset.card_add, Multiset.coe_card] at hcard
  by_cases hfull : batch.sent.length < c.maxSend.toNat
  · have hzero : (freshItems recentSignatures heap).card = 0 := by
      unfold freshItems
      rw [hshort hfull]
      rfl
    omega
  · omega

/-- **A call of `maybe_transmit`**, from any queue its own operations built: before the interval has passed nothing
changes; after it, the best batch goes out, and it fits the channel. -/
theorem maybeTransmit_best {c : TransactionContainer H queueSize} {ops : List (HeapOp (ScoredTransaction F))}
    {os : List (HeapRet (ScoredTransaction F))}
    (hheap : run MinMaxHeap.step (MinMaxHeap.new : MinMaxHeap H queueSize) ops = .ok (os, c.priorityQueueHeap))
    {txMut : Producer} (htx : c.transmitter = some txMut) (sdk : Sdk) (hticks : sdk.ticksPerMs ≠ 0) (stats : Stats)
    (recentSignatures : Lru.Cache UInt64 Unit sigCacheSize) (reads : Nat) :
    ∃ batch c' stats' reads', c.maybeTransmit sdk stats recentSignatures reads = .ok (batch, c', stats', reads') ∧
      ((sdk.tsc reads - c.lastSend) / sdk.ticksPerMs < 100 → batch = {} ∧ c' = c ∧ stats' = stats) ∧
      (100 ≤ (sdk.tsc reads - c.lastSend) / sdk.ticksPerMs →
        BestBatch recentSignatures c stats batch c' stats' ∧ batch.sent.length ≤ 16383 ∧
          batch.sent.length < ipcQosToSigCap) := by
  have hlen : c.priorityQueueHeap.len < queueSize := by
    obtain ⟨os', h', e, hlt, -⟩ := MinMaxHeap.run_ok ops (MinMaxHeap.new : MinMaxHeap H queueSize)
      (by rw [MinMaxHeap.len_new]; decide)
    rw [hheap] at e
    cases e
    exact hlt
  obtain ⟨batch, c', stats', reads', hcall⟩ := maybeTransmit_total hticks htx stats recentSignatures reads
  obtain ⟨txMut₁, htx₁, -, hturn⟩ := maybeTransmit_cases hcall
  rw [htx] at htx₁
  cases htx₁
  refine ⟨batch, c', stats', reads', hcall, ?_⟩
  cases hturn with
  | early hearly => exact ⟨fun _ => ⟨rfl, rfl, rfl⟩, fun htick => absurd hearly (UInt64.not_lt.2 htick)⟩
  | tick batch heap stats₁ txMut₁ lastSend reads' htick hsend htimer =>
    refine ⟨fun hearly => absurd htick (UInt64.not_le.2 hearly), fun _ => ?_⟩
    obtain ⟨hcount, hsub⟩ := sendBatch_best hsend
    obtain ⟨hsorted, hsent, hdropped, -, -⟩ := sendBatch_order recentSignatures _ _ _ _ _ _ _ _ hsend
    obtain ⟨hitems, -, hseen, hstats, hpushed⟩ := sendBatch_spec recentSignatures _ _ _ _ _ _ _ _ hsend
    have hfits : batch.sent.length ≤ 16383 := by
      have hcard := congrArg Multiset.card hitems
      rw [Multiset.card_add, Multiset.card_add, Multiset.coe_card, ← MinMaxHeap.len_eq] at hcard
      have : queueSize = 16384 := rfl
      omega
    refine ⟨⟨hcount, hsub, hsorted, fun tx htx left hleft => ?_, hitems, fun tx htx => ?_, ?_, ?_⟩, hfits, ?_⟩
    · exact hsent tx htx left (Multiset.mem_filter.1 hleft).1
    · exact ⟨hseen tx htx, hdropped tx htx⟩
    · rw [hstats]
    · exact ⟨txMut, _, htx, rfl, hpushed, rfl⟩
    · exact Nat.lt_of_le_of_lt hfits (by decide)

/-- Two fresh transactions in the queue, a limit of five and a hundred elapsed ticks: both go out. -/
theorem maybeTransmit_best_two :
    ∃ os heap batch c' stats' reads', run MinMaxHeap.step (MinMaxHeap.new : MinMaxHeap scoreHeap queueSize)
        [.push ⟨1, 7, emptyPacket ⟨#v[1, 2, 3, 4]⟩, 0⟩, .push ⟨2, 8, emptyPacket ⟨#v[1, 2, 3, 4]⟩, 0⟩] = .ok (os, heap) ∧
      (⟨heap, some {}, 0, 5⟩ : TransactionContainer scoreHeap queueSize).maybeTransmit refusingSdk {}
        (Lru.Cache.new (by decide) : Lru.Cache UInt64 Unit 1) 100 = .ok (batch, c', stats', reads') ∧
      batch.sent.length = 2 ∧ batch.sent.Pairwise (fun a b => b.score ≤ a.score) := by
  obtain ⟨os, heap, hrun, hitems, hlen⟩ : ∃ os heap, run MinMaxHeap.step
      (MinMaxHeap.new : MinMaxHeap scoreHeap queueSize)
      [.push ⟨1, 7, emptyPacket ⟨#v[1, 2, 3, 4]⟩, 0⟩, .push ⟨2, 8, emptyPacket ⟨#v[1, 2, 3, 4]⟩, 0⟩] = .ok (os, heap) ∧
      freshItems (Lru.Cache.new (by decide) : Lru.Cache UInt64 Unit 1) heap = heap.items ∧ heap.items.card = 2 := by
    refine ⟨_, _, rfl, ?_, rfl⟩
    refine Multiset.filter_eq_self.2 (fun tx _ => ?_)
    rw [Lru.Cache.contains_eq, Lru.Cache.lookup_new]
    rfl
  obtain ⟨batch, c', stats', reads', hcall, -, htick⟩ := maybeTransmit_best
    (c := ⟨heap, some {}, 0, 5⟩) hrun rfl refusingSdk (by decide) {}
    (Lru.Cache.new (by decide) : Lru.Cache UInt64 Unit 1) 100
  obtain ⟨hbest, -⟩ := htick (show 100 ≤ (refusingSdk.tsc 100 - 0) / refusingSdk.ticksPerMs by decide)
  refine ⟨os, heap, batch, c', stats', reads', hrun, hcall, ?_, hbest.sorted⟩
  rw [hbest.count, hitems, hlen]
  rfl

end Qos
