import SolanaQos.BankingOrder
/-!
# Retrieving a batch (`maybe_retrieve` in `qos-core/src/banking.rs`)

A caller without a transmitter gets the pipeline of `maybe_transmit` as an iterator: nothing is popped before it asks,
and what it does not ask for stays queued.  The timer restarts when the iterator is made, whether or not anything comes
of it, and nothing is counted as transmitted.

The model gives the caller's behaviour as a number: it asks so many times at most, and lets the iterator go.  Two
filters differ in the source, one over an optional set of recent signatures and one over a set that is there;
`pollRetrieved_eq` shows that the first is the second on the set it has, or on the empty one.

`pull_sendBatch` compares the two ways to consume the pipeline, by induction on the number of requests: what was pulled
is the front of what the loop would send, what was dropped on the way is a front of what the loop would drop, and what
is left in the queue is the rest of both with what the loop leaves.  From it, `maybeRetrieve_agrees`.
-/
namespace Qos

open Runs

variable {F : Type} [LinearOrder F] {H : HeapCrate (ScoredTransaction F)} {n sigCacheSize : Nat}

/-- `next` of the filter; without recent signatures everything passes. -/
def pollRetrieved (recentSignatures : Option (Lru.Cache UInt64 Unit sigCacheSize)) (h : MinMaxHeap H n) (stats : Stats) :
    Option (ScoredTransaction F) × List (ScoredTransaction F) × MinMaxHeap H n × Stats :=
  match _e : h.next with
  | (none, h') => (none, [], h', stats)
  | (some tx, h') =>
    if seenRecently recentSignatures tx.sigKey then
      let r := pollRetrieved recentSignatures h'
        { stats with recentlyProcessedQueued := stats.recentlyProcessedQueued + 1 }
      (r.1, tx :: r.2.1, r.2.2)
    else
      (some tx, [], h', stats)
termination_by h.len
decreasing_by
  have hcard := congrArg Multiset.card (MinMaxHeap.next_some _e).1
  rw [Multiset.card_cons, ← MinMaxHeap.len_eq, ← MinMaxHeap.len_eq] at hcard
  omega

structure Retrieval {F : Type} [LinearOrder F] (H : HeapCrate (ScoredTransaction F)) (n : Nat) where
  heap : MinMaxHeap H n
  stats : Stats
  left : Nat

def Retrieval.next (recentSignatures : Option (Lru.Cache UInt64 Unit sigCacheSize)) (r : Retrieval H n) :
    Option (ScoredTransaction F) × List (ScoredTransaction F) × Retrieval H n :=
  match r.left with
  | 0 => (none, [], r)
  | left + 1 =>
    let (opt, dropped, heap, stats) := pollRetrieved recentSignatures r.heap r.stats
    (opt, dropped, ⟨heap, stats, left⟩)

/-- A caller that asks `nexts` times at most and stops when there is nothing more. -/
def Retrieval.pull (recentSignatures : Option (Lru.Cache UInt64 Unit sigCacheSize)) :
    Nat → Retrieval H n → Batch F × Retrieval H n
  | 0, r => ({}, r)
  | nexts + 1, r =>
    match r.next recentSignatures with
    | (none, dropped, r) => (⟨[], dropped⟩, r)
    | (some tx, dropped, r) =>
      let (batch, r) := Retrieval.pull recentSignatures nexts r
      (⟨tx :: batch.sent, dropped ++ batch.dropped⟩, r)

/-- The call, and then the `nexts` calls of `next` before the caller lets the iterator go. -/
def TransactionContainer.maybeRetrieve (sdk : Sdk) (c : TransactionContainer H n) (stats : Stats)
    (recentSignatures : Option (Lru.Cache UInt64 Unit sigCacheSize)) (reads nexts : Nat) :
    Except Panic (Option (Batch F) × TransactionContainer H n × Stats × Nat) := do
  let elapsed ← elapsedMs sdk c.lastSend (sdk.tsc reads)
  if sendIntervalMs ≤ elapsed then
    let (batch, r) := Retrieval.pull recentSignatures nexts ⟨c.priorityQueueHeap, stats, c.maxSend.toNat⟩
    return (some batch, { c with priorityQueueHeap := r.heap, lastSend := sdk.tsc (reads + 1) }, r.stats, reads + 2)
  else
    return (none, c, stats, reads + 1)

/-! ## The iterator and the loop -/

theorem pollRetrieved_eq {recentSignatures : Option (Lru.Cache UInt64 Unit sigCacheSize)}
    {recent : Lru.Cache UInt64 Unit sigCacheSize} (hsame : ∀ key, seenRecently recentSignatures key = recent.contains key)
    (h : MinMaxHeap H n) (stats : Stats) : pollRetrieved recentSignatures h stats = pollFresh recent h stats := by
  fun_induction pollRetrieved recentSignatures h stats with
  | case1 h stats h' e =>
    rw [pollFresh]
    split
    · rename_i h'' e'
      cases e.symm.trans e'
      rfl
    · rename_i tx h'' e'
      cases e.symm.trans e'
  | case2 h stats tx h' e hseen r ih =>
    rw [pollFresh]
    split
    · rename_i h'' e'
      cases e.symm.trans e'
    · rename_i tx' h'' e'
      cases e.symm.trans e'
      rw [if_pos (by rw [← hsame]; exact hseen), ← ih]
  | case3 h stats tx h' e hseen =>
    rw [pollFresh]
    split
    · rename_i h'' e'
      cases e.symm.trans e'
    · rename_i tx' h'' e'
      cases e.symm.trans e'
      rw [if_neg (by rw [← hsame]; exact hseen)]

/-- **What pulling takes of a batch**: a front of what the loop sends and of what it drops, and the rest of both is still
queued, over what the loop leaves. -/
structure Pulled (nexts limit : Nat) (stats : Stats) (batch : Batch F) (heap : MinMaxHeap H n) (batch' : Batch F)
    (r : Retrieval H n) : Prop where
  sent : batch'.sent = batch.sent.take nexts
  dropped : batch'.dropped <+: batch.dropped
  items : r.heap.items = (batch.sent.drop nexts : Multiset (ScoredTransaction F)) +
    (batch.dropped.drop batch'.dropped.length : Multiset (ScoredTransaction F)) + heap.items
  stats : r.stats = { stats with recentlyProcessedQueued := stats.recentlyProcessedQueued + batch'.dropped.length }
  all : batch.sent.length < nexts ∨ limit ≤ nexts → batch'.dropped = batch.dropped ∧ r.heap = heap

theorem pull_sendBatch {recentSignatures : Option (Lru.Cache UInt64 Unit sigCacheSize)}
    {recent : Lru.Cache UInt64 Unit sigCacheSize} (hsame : ∀ key, seenRecently recentSignatures key = recent.contains key) :
    ∀ (nexts limit : Nat) (h h' : MinMaxHeap H n) (stats stats' : Stats) (txMut txMut' : Producer) (batch : Batch F),
      sendBatch recent limit h stats txMut = (batch, h', stats', txMut') →
      ∃ batch' r, Retrieval.pull recentSignatures nexts ⟨h, stats, limit⟩ = (batch', r) ∧
        Pulled nexts limit stats batch h' batch' r
  | 0, limit, h, h', stats, stats', txMut, txMut', batch, e => by
    obtain ⟨hitems, -⟩ := sendBatch_spec recent _ _ _ _ _ _ _ _ e
    refine ⟨{}, _, rfl, rfl, List.nil_prefix, hitems, rfl, fun hall => ?_⟩
    obtain rfl : limit = 0 := by omega
    cases e
    exact ⟨rfl, rfl⟩
  | nexts + 1, 0, h, h', stats, stats', txMut, txMut', batch, e => by
    cases e
    exact ⟨⟨[], []⟩, _, rfl, rfl, List.nil_prefix, by simp, rfl, fun _ => ⟨rfl, rfl⟩⟩
  | nexts + 1, limit + 1, h, h', stats, stats', txMut, txMut', batch, e => by
    have hstats := (pollFresh_spec recent h stats).2.2.2
    rcases sendBatch_succ e with ⟨hp, hnil, -⟩ | ⟨tx, dropped, h₁, stats₁, batch₂, hp, hrest, hcons, happend⟩
    · rw [hp] at hstats
      refine ⟨⟨[], batch.dropped⟩, ⟨h', stats', limit⟩, ?_, ?_, List.prefix_rfl, ?_, hstats, fun _ => ⟨rfl, rfl⟩⟩
      · simp only [Retrieval.pull, Retrieval.next, pollRetrieved_eq hsame, hp]
      · rw [hnil]
        rfl
      · rw [hnil]
        simp
    · rw [hp] at hstats
      obtain ⟨batch', r, hpull, ht⟩ := pull_sendBatch hsame nexts limit _ _ _ _ _ _ _ hrest
      refine ⟨⟨tx :: batch'.sent, dropped ++ batch'.dropped⟩, r, ?_, ?_, ?_, ?_, ?_, fun hall => ?_⟩
      · simp only [Retrieval.pull, Retrieval.next, pollRetrieved_eq hsame, hp, hpull]
      · rw [hcons, List.take_succ_cons, ht.sent]
      · rw [happend]
        exact List.prefix_append_right_inj dropped |>.2 ht.dropped
      · rw [hcons, happend, List.drop_succ_cons, List.length_append, ← List.drop_drop, List.drop_left]
        exact ht.items
      · simp only at hstats
        rw [ht.stats, hstats]
        simp only [List.length_append, Nat.add_assoc]
      · rw [hcons, List.length_cons] at hall
        obtain ⟨hdropped, hheap⟩ := ht.all (by omega)
        exact ⟨by rw [happend, hdropped], hheap⟩

/-- **Retrieving agrees with transmitting.**  In any state and at any clock, `maybe_retrieve` yields a batch exactly when
the interval has passed.  A caller that takes `nexts` of it gets the first `nexts` transactions that `maybe_transmit` would
send; the others, and what would be dropped behind them, stay in the queue.  The timer is restarted in any case and nothing
is counted but what was dropped. -/
theorem maybeRetrieve_agrees (sdk : Sdk) (hticks : sdk.ticksPerMs ≠ 0) (c : TransactionContainer H n) (txMut : Producer)
    (htx : c.transmitter = some txMut) (stats : Stats) (recentSignatures : Option (Lru.Cache UInt64 Unit sigCacheSize))
    (recent : Lru.Cache UInt64 Unit sigCacheSize)
    (hsame : ∀ key, seenRecently recentSignatures key = recent.contains key) (reads nexts : Nat) :
    ∃ batch c₁ stats₁ reads₁ retrieved c₂ stats₂ reads₂,
      c.maybeTransmit sdk stats recent reads = .ok (batch, c₁, stats₁, reads₁) ∧
      c.maybeRetrieve sdk stats recentSignatures reads nexts = .ok (retrieved, c₂, stats₂, reads₂) ∧
      ((sdk.tsc reads - c.lastSend) / sdk.ticksPerMs < 100 → retrieved = none ∧ batch = {} ∧ c₂ = c ∧ stats₂ = stats) ∧
      (100 ≤ (sdk.tsc reads - c.lastSend) / sdk.ticksPerMs → ∃ batch', retrieved = some batch' ∧
        batch'.sent = batch.sent.take nexts ∧ batch'.dropped <+: batch.dropped ∧
        c₂.priorityQueueHeap.items = (batch.sent.drop nexts : Multiset (ScoredTransaction F)) +
          (batch.dropped.drop batch'.dropped.length : Multiset (ScoredTransaction F)) + c₁.priorityQueueHeap.items ∧
        (batch.sent.length < nexts ∨ c.maxSend.toNat ≤ nexts →
          batch'.dropped = batch.dropped ∧ c₂.priorityQueueHeap = c₁.priorityQueueHeap) ∧
        c₂.lastSend = sdk.tsc (reads + 1) ∧ c₂.transmitter = c.transmitter ∧
        stats₂ = { stats with recentlyProcessedQueued := stats.recentlyProcessedQueued + batch'.dropped.length }) := by
  obtain ⟨batch, c₁, stats₁, reads₁, hcall⟩ := maybeTransmit_total hticks htx stats recent reads
  obtain ⟨txMut₁, -, -, hturn⟩ := maybeTransmit_cases hcall
  refine ⟨batch, c₁, stats₁, reads₁, ?_⟩
  unfold TransactionContainer.maybeRetrieve elapsedMs
  rw [if_neg hticks, ok_bind]
  cases hturn with
  | early hearly =>
    rw [if_neg (UInt64.not_le.2 hearly)]
    exact ⟨none, c, stats, reads + 1, hcall, rfl, fun _ => ⟨rfl, rfl, rfl, rfl⟩,
      fun htick => absurd hearly (UInt64.not_lt.2 htick)⟩
  | tick batch heap stats' txMut' lastSend reads' htick hsend htimer =>
    rw [if_pos htick]
    obtain ⟨batch', r, hpull, ht⟩ := pull_sendBatch hsame nexts _ _ _ _ _ _ _ _ hsend
    rw [hpull]
    exact ⟨some batch', _, r.stats, reads + 2, hcall, rfl, fun hearly => absurd htick (UInt64.not_le.2 hearly),
      fun _ => ⟨batch', rfl, ht.sent, ht.dropped, ht.items, ht.all, rfl, rfl, ht.stats⟩⟩

/-- Two transactions in the queue, one of them asked for and no signature known. -/
theorem maybeRetrieve_agrees_one :
    ∃ (heap : MinMaxHeap scoreHeap queueSize) (batch batch' : Batch ℚ) (c₁ c₂ : TransactionContainer scoreHeap queueSize)
        (stats₁ stats₂ : Stats) (reads₁ reads₂ : Nat),
      heap.items.card = 2 ∧
      (⟨heap, some {}, 0, 5⟩ : TransactionContainer scoreHeap queueSize).maybeTransmit refusingSdk {}
        (Lru.Cache.new (by decide) : Lru.Cache UInt64 Unit 1) 100 = .ok (batch, c₁, stats₁, reads₁) ∧
      (⟨heap, some {}, 0, 5⟩ : TransactionContainer scoreHeap queueSize).maybeRetrieve refusingSdk {}
        (none : Option (Lru.Cache UInt64 Unit 1)) 100 1 = .ok (some batch', c₂, stats₂, reads₂) ∧
      batch'.sent = batch.sent.take 1 := by
  obtain ⟨os, heap, hrun, hcard⟩ : ∃ os heap, run MinMaxHeap.step (MinMaxHeap.new : MinMaxHeap scoreHeap queueSize)
      [.push ⟨1, 7, emptyPacket ⟨#v[1, 2, 3, 4]⟩, 0⟩, .push ⟨2, 8, emptyPacket ⟨#v[1, 2, 3, 4]⟩, 0⟩] = .ok (os, heap) ∧
      heap.items.card = 2 := ⟨_, _, rfl, rfl⟩
  obtain ⟨batch, c₁, stats₁, reads₁, retrieved, c₂, stats₂, reads₂, hcall, hcall', -, htick⟩ :=
    maybeRetrieve_agrees refusingSdk (by decide) ⟨heap, some {}, 0, 5⟩ {} rfl {} none
      (Lru.Cache.new (by decide) : Lru.Cache UInt64 Unit 1) (fun key => by
        rw [Lru.Cache.contains_eq, Lru.Cache.lookup_new]
        rfl) 100 1
  obtain ⟨batch', rfl, hsent, -⟩ := htick (show 100 ≤ (refusingSdk.tsc 100 - 0) / refusingSdk.ticksPerMs by decide)
  exact ⟨heap, batch, batch', c₁, c₂, stats₁, stats₂, reads₁, reads₂, hcard, hcall, hcall', hsent⟩

end Qos
