import SolanaQos.MinMax
import SolanaQos.Process
/-!
# The priority queue and its transmitter (`qos-core/src/banking.rs`)

`maybe_transmit` pulls a lazy pipeline: `get_max_values` pops, `filter` drops what was confirmed meanwhile and counts
it, `take` stops asking after `max_send` survivors.  `pollFresh` is one `next` of the filter and `sendBatch` the loop
that pushes what `take` lets through; both also return the transactions they dropped, which the source only counts.

The timer reads the time stamp counter, so a reading is the number of earlier readings here, and what it shows is the
machine's.  A container without a transmitter panics in `maybe_transmit`, and so does one whose clock was never
calibrated, by a division by zero.

* What a batch took is what it pushed and what it dropped, nothing pushed was confirmed, and it stops at the limit or
  at an empty queue (`sendBatch_spec`).
* A call of `maybe_transmit` either finds that the interval has not passed and leaves the queue alone, or sends one
  batch and restarts the timer (`maybeTransmit_cases`, `maybeTransmit_spec`).
* `queue` holds what it is given, or hands back the least of what it then has and counts that as dropped
  (`queue_spec`); it does not touch the transmitter (`queue_transmitter`) and returns (`queue_total`).
-/
namespace Qos

open Runs

variable {F : Type} [LinearOrder F] {H : HeapCrate (ScoredTransaction F)} {n sigCacheSize : Nat}

structure Producer where
  pushed : List Packet := []
  synced : Nat := 0

def Producer.push (p : Producer) (packet : Packet) : Producer := { p with pushed := p.pushed ++ [packet] }

def Producer.sync (p : Producer) : Producer := { p with synced := p.pushed.length }

/-- `Timer::elapsed_ms`, at a reading of the time stamp counter. -/
def elapsedMs (sdk : Sdk) (start now : UInt64) : Except Panic UInt64 :=
  if sdk.ticksPerMs = 0 then .error .divideByZero else .ok ((now - start) / sdk.ticksPerMs)

structure TransactionContainer {F : Type} [LinearOrder F] (H : HeapCrate (ScoredTransaction F)) (n : Nat) where
  priorityQueueHeap : MinMaxHeap H n
  transmitter : Option Producer
  lastSend : UInt64
  maxSend : UInt64

/-- What one `maybe_transmit` pushed and what it dropped as recently processed. -/
structure Batch (F : Type) where
  sent : List (ScoredTransaction F) := []
  dropped : List (ScoredTransaction F) := []

def pollFresh (recentSignatures : Lru.Cache UInt64 Unit sigCacheSize) (h : MinMaxHeap H n) (stats : Stats) :
    Option (ScoredTransaction F) × List (ScoredTransaction F) × MinMaxHeap H n × Stats :=
  match _e : h.next with
  | (none, h') => (none, [], h', stats)
  | (some tx, h') =>
    if recentSignatures.contains tx.sigKey then
      let r := pollFresh recentSignatures h'
        { stats with recentlyProcessedQueued := stats.recentlyProcessedQueued + 1 }
      (r.1, tx :: r.2.1, r.2.2)
    else
      (some tx, [], h', stats)
termination_by h.len
decreasing_by
  have hcard := congrArg Multiset.card (MinMaxHeap.next_some _e).1
  rw [Multiset.card_cons, ← MinMaxHeap.len_eq, ← MinMaxHeap.len_eq] at hcard
  omega

/-- The `for` loop over the pipeline, `take` still letting `k` through. -/
def sendBatch (recentSignatures : Lru.Cache UInt64 Unit sigCacheSize) :
    Nat → MinMaxHeap H n → Stats → Producer → Batch F × MinMaxHeap H n × Stats × Producer
  | 0, h, stats, txMut => ({}, h, stats, txMut)
  | k + 1, h, stats, txMut =>
    match pollFresh recentSignatures h stats with
    | (none, dropped, h, stats) => (⟨[], dropped⟩, h, stats, txMut)
    | (some tx, dropped, h, stats) =>
      let r := sendBatch recentSignatures k h stats (txMut.push tx.packet)
      (⟨tx :: r.1.sent, dropped ++ r.1.dropped⟩, r.2)

namespace TransactionContainer

def sendIntervalMs : UInt64 := 100

def new (sdk : Sdk) (transmitter : Option Producer) (targetPps : UInt64) (reads : Nat) : TransactionContainer H n :=
  ⟨MinMaxHeap.new, transmitter, sdk.tsc reads, targetPps * sendIntervalMs / 1000⟩

def queue (c : TransactionContainer H n) (tx : ScoredTransaction F) (stats : Stats) :
    Except Panic (TransactionContainer H n × Stats) := do
  let (evicted, heap) ← c.priorityQueueHeap.push tx
  let c := { c with priorityQueueHeap := heap }
  if evicted.isSome then
    return (c, { stats with leakedPriority := stats.leakedPriority + 1 })
  else
    return (c, stats)

/-- `reads` counts the readings of the time stamp counter so far. -/
def maybeTransmit (sdk : Sdk) (c : TransactionContainer H n) (stats : Stats)
    (recentSignatures : Lru.Cache UInt64 Unit sigCacheSize) (reads : Nat) :
    Except Panic (Batch F × TransactionContainer H n × Stats × Nat) :=
  match c.transmitter with
  | none => .error .noTransmitter
  | some txMut => do
    let elapsed ← elapsedMs sdk c.lastSend (sdk.tsc reads)
    if sendIntervalMs ≤ elapsed then
      let (batch, heap, stats, txMut) := sendBatch recentSignatures c.maxSend.toNat c.priorityQueueHeap stats txMut
      let c := { c with priorityQueueHeap := heap, transmitter := some txMut.sync }
      if 0 < batch.sent.length then
        return (batch, { c with lastSend := sdk.tsc (reads + 1) },
          { stats with bankingTransmissions := stats.bankingTransmissions + batch.sent.length }, reads + 2)
      else
        return (batch, c, stats, reads + 1)
    else
      return ({}, c, stats, reads + 1)

end TransactionContainer

/-! ## What the loop does -/

theorem pollFresh_spec (recentSignatures : Lru.Cache UInt64 Unit sigCacheSize) (h : MinMaxHeap H n) (stats : Stats) :
    h.items = (pollFresh recentSignatures h stats).1.elim 0 (fun tx => {tx}) +
        ((pollFresh recentSignatures h stats).2.1 : Multiset (ScoredTransaction F)) +
        (pollFresh recentSignatures h stats).2.2.1.items ∧
      (∀ tx, (pollFresh recentSignatures h stats).1 = some tx → recentSignatures.contains tx.sigKey = false) ∧
      (∀ tx ∈ (pollFresh recentSignatures h stats).2.1, recentSignatures.contains tx.sigKey = true) ∧
      (pollFresh recentSignatures h stats).2.2.2 =
        { stats with recentlyProcessedQueued := stats.recentlyProcessedQueued +
          (pollFresh recentSignatures h stats).2.1.length } := by
  fun_induction pollFresh recentSignatures h stats with
  | case1 h stats h' e =>
    obtain ⟨rfl, hz⟩ := MinMaxHeap.next_none e
    simp [hz]
  | case2 h stats tx h' e hseen r ih =>
    obtain ⟨hitems, -⟩ := MinMaxHeap.next_some e
    obtain ⟨hsplit, hfresh, hseen', hstats⟩ := ih
    refine ⟨?_, hfresh, ?_, ?_⟩
    · rw [hitems, hsplit, ← Multiset.cons_coe]
      simp only [Multiset.add_cons, Multiset.cons_add, r]
    · intro tx' htx'
      rcases List.mem_cons.1 htx' with rfl | htx'
      · exact hseen
      · exact hseen' tx' htx'
    · simp only [r, hstats, List.length_cons]
      congr 1
      omega
  | case3 h stats tx h' e hseen =>
    obtain ⟨hitems, -⟩ := MinMaxHeap.next_some e
    refine ⟨by simp [hitems], ?_, by simp, rfl⟩
    intro tx' htx'
    cases htx'
    simpa using hseen

theorem sendBatch_succ {recentSignatures : Lru.Cache UInt64 Unit sigCacheSize} {k : Nat} {h h' : MinMaxHeap H n}
    {stats stats' : Stats} {txMut txMut' : Producer} {batch : Batch F}
    (e : sendBatch recentSignatures (k + 1) h stats txMut = (batch, h', stats', txMut')) :
    (pollFresh recentSignatures h stats = (none, batch.dropped, h', stats') ∧ batch.sent = [] ∧ txMut' = txMut) ∨
      ∃ tx dropped h₁ stats₁ batch₂, pollFresh recentSignatures h stats = (some tx, dropped, h₁, stats₁) ∧
        sendBatch recentSignatures k h₁ stats₁ (txMut.push tx.packet) = (batch₂, h', stats', txMut') ∧
        batch.sent = tx :: batch₂.sent ∧ batch.dropped = dropped ++ batch₂.dropped := by
  rw [sendBatch] at e
  split at e
  · rename_i dropped h₁ stats₁ hp
    cases e
    exact Or.inl ⟨hp, rfl, rfl⟩
  · rename_i tx dropped h₁ stats₁ hp
    obtain ⟨batch₂, rest, hrest⟩ : ∃ batch₂ rest,
        sendBatch recentSignatures k h₁ stats₁ (txMut.push tx.packet) = (batch₂, rest) := ⟨_, _, rfl⟩
    rw [hrest] at e
    cases e
    exact Or.inr ⟨tx, dropped, h₁, stats₁, batch₂, hp, hrest, rfl, rfl⟩

/-- **One batch**: everything popped was pushed or dropped, nothing pushed was seen recently and everything dropped
was. -/
theorem sendBatch_spec (recentSignatures : Lru.Cache UInt64 Unit sigCacheSize) :
    ∀ (k : Nat) (h : MinMaxHeap H n) (stats : Stats) (txMut : Producer) (batch : Batch F) (h' : MinMaxHeap H n)
      (stats' : Stats) (txMut' : Producer), sendBatch recentSignatures k h stats txMut = (batch, h', stats', txMut') →
    h.items = (batch.sent : Multiset (ScoredTransaction F)) + (batch.dropped : Multiset (ScoredTransaction F)) +
        h'.items ∧
      (∀ tx ∈ batch.sent, recentSignatures.contains tx.sigKey = false) ∧
      (∀ tx ∈ batch.dropped, recentSignatures.contains tx.sigKey = true) ∧
      stats' = { stats with recentlyProcessedQueued := stats.recentlyProcessedQueued + batch.dropped.length } ∧
      txMut'.pushed = txMut.pushed ++ batch.sent.map ScoredTransaction.packet
  | 0, h, stats, txMut, batch, h', stats', txMut', e => by
    cases e
    simp
  | k + 1, h, stats, txMut, batch, h', stats', txMut', e => by
    have hpoll := pollFresh_spec recentSignatures h stats
    rcases sendBatch_succ e with ⟨hp, hsent, rfl⟩ | ⟨tx, dropped, h₁, stats₁, batch₂, hp, hrest, hsent, hdropped⟩
    · rw [hp] at hpoll
      obtain ⟨hitems, -, hseen, hstats⟩ := hpoll
      rw [hsent]
      exact ⟨by simpa using hitems, by simp, hseen, hstats, by simp⟩
    · rw [hp] at hpoll
      obtain ⟨hitems, hfresh, hseen, hstats⟩ := hpoll
      obtain ⟨hitems₂, hfresh₂, hseen₂, hstats₂, hpushed₂⟩ := sendBatch_spec recentSignatures k _ _ _ _ _ _ _ hrest
      rw [hsent, hdropped]
      refine ⟨?_, ?_, ?_, ?_, ?_⟩
      · rw [hitems, Option.elim_some, hitems₂, ← Multiset.cons_coe, ← Multiset.coe_add, ← Multiset.singleton_add]
        abel
      · intro tx' htx'
        rcases List.mem_cons.1 htx' with rfl | htx'
        · exact hfresh tx' rfl
        · exact hfresh₂ tx' htx'
      · intro tx' htx'
        rcases List.mem_append.1 htx' with htx' | htx'
        · exact hseen tx' htx'
        · exact hseen₂ tx' htx'
      · simp only at hstats
        rw [hstats₂, hstats]
        simp only [List.length_append, Nat.add_assoc]
      · rw [hpushed₂]
        simp [Producer.push]

/-- **What a call of `maybe_transmit` did**, whether or not the interval had passed. -/
structure Transmitted (recentSignatures : Lru.Cache UInt64 Unit sigCacheSize) (c : TransactionContainer H n)
    (stats : Stats) (batch : Batch F) (c' : TransactionContainer H n) (stats' : Stats) : Prop where
  items : c.priorityQueueHeap.items = (batch.sent : Multiset (ScoredTransaction F)) +
    (batch.dropped : Multiset (ScoredTransaction F)) + c'.priorityQueueHeap.items
  fresh : ∀ tx ∈ batch.sent, recentSignatures.contains tx.sigKey = false
  seen : ∀ tx ∈ batch.dropped, recentSignatures.contains tx.sigKey = true
  stats : stats' = { stats with
    recentlyProcessedQueued := stats.recentlyProcessedQueued + batch.dropped.length
    bankingTransmissions := stats.bankingTransmissions + batch.sent.length }
  pushed : ∃ txMut txMut', c.transmitter = some txMut ∧ c'.transmitter = some txMut' ∧
    txMut'.pushed = txMut.pushed ++ batch.sent.map ScoredTransaction.packet

/-- **The two ends of a call of `maybe_transmit`**: the interval had not passed, or one batch went out. -/
inductive TransmitTurn (sdk : Sdk) (c : TransactionContainer H n) (stats : Stats)
    (recentSignatures : Lru.Cache UInt64 Unit sigCacheSize) (reads : Nat) (txMut : Producer) :
    Batch F → TransactionContainer H n → Stats → Nat → Prop
  | early (hearly : (sdk.tsc reads - c.lastSend) / sdk.ticksPerMs < TransactionContainer.sendIntervalMs) :
    TransmitTurn sdk c stats recentSignatures reads txMut {} c stats (reads + 1)
  | tick (batch : Batch F) (heap : MinMaxHeap H n) (stats' : Stats) (txMut' : Producer) (lastSend : UInt64) (reads' : Nat)
      (htick : TransactionContainer.sendIntervalMs ≤ (sdk.tsc reads - c.lastSend) / sdk.ticksPerMs)
      (hsend : sendBatch recentSignatures c.maxSend.toNat c.priorityQueueHeap stats txMut = (batch, heap, stats', txMut'))
      -- the timer is restarted behind a batch that sent something
      (htimer : (batch.sent ≠ [] ∧ lastSend = sdk.tsc (reads + 1) ∧ reads' = reads + 2) ∨
        (batch.sent = [] ∧ lastSend = c.lastSend ∧ reads' = reads + 1)) :
    TransmitTurn sdk c stats recentSignatures reads txMut batch ⟨heap, some txMut'.sync, lastSend, c.maxSend⟩
      { stats' with bankingTransmissions := stats'.bankingTransmissions + batch.sent.length } reads'

theorem maybeTransmit_cases {sdk : Sdk} {c c' : TransactionContainer H n} {stats stats' : Stats}
    {recentSignatures : Lru.Cache UInt64 Unit sigCacheSize} {reads reads' : Nat} {batch : Batch F}
    (h : c.maybeTransmit sdk stats recentSignatures reads = .ok (batch, c', stats', reads')) :
    ∃ txMut, c.transmitter = some txMut ∧ sdk.ticksPerMs ≠ 0 ∧
      TransmitTurn sdk c stats recentSignatures reads txMut batch c' stats' reads' := by
  unfold TransactionContainer.maybeTransmit at h
  cases htx : c.transmitter with
  | none =>
    rw [htx] at h
    cases h
  | some txMut =>
    rw [htx] at h
    obtain ⟨elapsed, helapsed, h⟩ := bind_eq_ok h
    unfold elapsedMs at helapsed
    by_cases hticks : sdk.ticksPerMs = 0
    · rw [if_pos hticks] at helapsed
      cases helapsed
    · rw [if_neg hticks] at helapsed
      cases helapsed
      refine ⟨txMut, rfl, hticks, ?_⟩
      by_cases htick : TransactionContainer.sendIntervalMs ≤ (sdk.tsc reads - c.lastSend) / sdk.ticksPerMs
      · rw [if_pos htick] at h
        obtain ⟨batch₁, ⟨heap, stats₁, txMut₁⟩, hsend⟩ : ∃ batch₁ rest,
            sendBatch recentSignatures c.maxSend.toNat c.priorityQueueHeap stats txMut = (batch₁, rest) := ⟨_, _, rfl⟩
        rw [hsend] at h
        by_cases hsent : 0 < batch₁.sent.length
        · simp only [hsent, if_true] at h
          cases h
          exact .tick _ _ _ _ _ _ htick hsend (Or.inl ⟨List.ne_nil_of_length_pos hsent, rfl, rfl⟩)
        · have hnil : batch₁.sent = [] := List.eq_nil_of_length_eq_zero (Nat.eq_zero_of_not_pos hsent)
          have hstats : { stats₁ with bankingTransmissions := stats₁.bankingTransmissions + batch₁.sent.length } =
              stats₁ := by rw [hnil]; rfl
          have hturn := TransmitTurn.tick (c := c) _ _ _ _ _ _ htick hsend (Or.inr ⟨hnil, rfl, rfl⟩)
          rw [hstats] at hturn
          simp only [hsent, if_false] at h
          cases h
          exact hturn
      · rw [if_neg htick] at h
        cases h
        exact .early (UInt64.not_le.1 htick)

theorem maybeTransmit_spec {sdk : Sdk} {c c' : TransactionContainer H n} {stats stats' : Stats}
    {recentSignatures : Lru.Cache UInt64 Unit sigCacheSize} {reads reads' : Nat} {batch : Batch F}
    (h : c.maybeTransmit sdk stats recentSignatures reads = .ok (batch, c', stats', reads')) :
    Transmitted recentSignatures c stats batch c' stats' := by
  obtain ⟨txMut, htx, -, hturn⟩ := maybeTransmit_cases h
  cases hturn with
  | early hearly => exact ⟨by simp, by simp, by simp, rfl, txMut, txMut, htx, htx, by simp⟩
  | tick batch heap stats₁ txMut₁ lastSend reads' htick hsend htimer =>
    obtain ⟨hitems, hfresh, hseen, hstats, hpushed⟩ := sendBatch_spec recentSignatures _ _ _ _ _ _ _ _ hsend
    exact ⟨hitems, hfresh, hseen, by rw [hstats], txMut, _, htx, rfl, hpushed⟩

theorem queue_spec {c c' : TransactionContainer H n} {tx : ScoredTransaction F} {stats stats' : Stats}
    (hlt : c.priorityQueueHeap.len < n) (h : c.queue tx stats = .ok (c', stats')) :
    ∃ evicted : Option (ScoredTransaction F),
      tx ::ₘ c.priorityQueueHeap.items = c'.priorityQueueHeap.items + evicted.elim 0 (fun x => {x}) ∧
      c'.priorityQueueHeap.len < n ∧ c'.transmitter = c.transmitter ∧
      stats' = { stats with leakedPriority := stats.leakedPriority + evicted.toList.length } := by
  obtain ⟨evicted, heap, e, hitems, hlt', -⟩ := c.priorityQueueHeap.push_ok hlt tx
  unfold TransactionContainer.queue at h
  rw [e, ok_bind] at h
  refine ⟨evicted, ?_⟩
  cases evicted with
  | none =>
    cases h
    exact ⟨hitems, hlt', rfl, rfl⟩
  | some x =>
    cases h
    exact ⟨hitems, hlt', rfl, rfl⟩

theorem queue_frame {c c' : TransactionContainer H n} {tx : ScoredTransaction F} {stats stats' : Stats}
    (h : c.queue tx stats = .ok (c', stats')) : c'.lastSend = c.lastSend ∧ c'.maxSend = c.maxSend := by
  unfold TransactionContainer.queue at h
  obtain ⟨⟨evicted, heap⟩, -, h⟩ := bind_eq_ok h
  cases evicted with
  | none =>
    cases h
    exact ⟨rfl, rfl⟩
  | some x =>
    cases h
    exact ⟨rfl, rfl⟩

theorem queue_transmitter {c c' : TransactionContainer H n} {tx : ScoredTransaction F} {stats stats' : Stats}
    (h : c.queue tx stats = .ok (c', stats')) : c'.transmitter = c.transmitter := by
  unfold TransactionContainer.queue at h
  obtain ⟨⟨evicted, heap⟩, -, h⟩ := bind_eq_ok h
  cases evicted <;> cases h <;> rfl

theorem queue_holds {c c' : TransactionContainer H n} {tx : ScoredTransaction F} {stats stats' : Stats}
    (hroom : c.priorityQueueHeap.len + 1 < n) (hqueue : c.queue tx stats = .ok (c', stats')) :
    c'.priorityQueueHeap.items = tx ::ₘ c.priorityQueueHeap.items ∧ stats' = stats := by
  obtain ⟨evicted, heap, hpush, hitems, -, hfull, -⟩ := c.priorityQueueHeap.push_ok (Nat.lt_of_succ_lt hroom) tx
  unfold TransactionContainer.queue at hqueue
  rw [hpush, ok_bind] at hqueue
  cases evicted with
  | none =>
    cases hqueue
    rw [Option.elim_none, Multiset.add_zero] at hitems
    exact ⟨hitems.symm, rfl⟩
  | some x =>
    have := hfull.1 rfl
    omega

theorem queue_total {c : TransactionContainer H n} (hlt : c.priorityQueueHeap.len < n) (tx : ScoredTransaction F)
    (stats : Stats) : ∃ c' stats', c.queue tx stats = .ok (c', stats') := by
  obtain ⟨evicted, heap, e, -⟩ := c.priorityQueueHeap.push_ok hlt tx
  unfold TransactionContainer.queue
  rw [e, ok_bind]
  cases evicted with
  | none => exact ⟨_, _, rfl⟩
  | some x => exact ⟨_, _, rfl⟩

theorem maybeTransmit_total {sdk : Sdk} (hticks : sdk.ticksPerMs ≠ 0) {c : TransactionContainer H n} {txMut : Producer}
    (htx : c.transmitter = some txMut) (stats : Stats) (recentSignatures : Lru.Cache UInt64 Unit sigCacheSize)
    (reads : Nat) : ∃ batch c' stats' reads',
      c.maybeTransmit sdk stats recentSignatures reads = .ok (batch, c', stats', reads') := by
  unfold TransactionContainer.maybeTransmit elapsedMs
  simp only [htx, if_neg hticks, ok_bind]
  split
  · split
    · exact ⟨_, _, _, _, rfl⟩
    · exact ⟨_, _, _, _, rfl⟩
  · exact ⟨_, _, _, _, rfl⟩

theorem queue_maybeTransmit {sdk : Sdk} {c c₁ c' : TransactionContainer H n} {tx : ScoredTransaction F}
    {stats stats₁ stats' : Stats} {recentSignatures : Lru.Cache UInt64 Unit sigCacheSize} {reads reads' : Nat}
    {batch : Batch F} {txMut : Producer} (hlt : c.priorityQueueHeap.len < n) (htx : c.transmitter = some txMut)
    (hqueue : c.queue tx stats = .ok (c₁, stats₁))
    (htransmit : c₁.maybeTransmit sdk stats₁ recentSignatures reads = .ok (batch, c', stats', reads')) :
    ∃ (evicted : Option (ScoredTransaction F)) (txMut' : Producer),
      tx ::ₘ c.priorityQueueHeap.items = (batch.sent : Multiset (ScoredTransaction F)) +
        (batch.dropped : Multiset (ScoredTransaction F)) + c'.priorityQueueHeap.items +
        evicted.elim 0 (fun x => {x}) ∧
      c'.priorityQueueHeap.len < n ∧ c'.transmitter = some txMut' ∧
      txMut'.pushed = txMut.pushed ++ batch.sent.map ScoredTransaction.packet ∧
      (∀ tx ∈ batch.sent, recentSignatures.contains tx.sigKey = false) ∧
      (∀ tx ∈ batch.dropped, recentSignatures.contains tx.sigKey = true) ∧
      stats' = { stats with
        leakedPriority := stats.leakedPriority + evicted.toList.length
        recentlyProcessedQueued := stats.recentlyProcessedQueued + batch.dropped.length
        bankingTransmissions := stats.bankingTransmissions + batch.sent.length } := by
  obtain ⟨evicted, hitems, hlt₁, hsame, hleak⟩ := queue_spec hlt hqueue
  have ht := maybeTransmit_spec htransmit
  obtain ⟨txMut₁, txMut', htx₁, htx', hpushed⟩ := ht.pushed
  rw [hsame, htx] at htx₁
  cases htx₁
  refine ⟨evicted, txMut', ?_, ?_, htx', hpushed, ht.fresh, ht.seen, ?_⟩
  · rw [hitems, ht.items]
  · have hcard := congrArg Multiset.card ht.items
    rw [Multiset.card_add, ← MinMaxHeap.len_eq, ← MinMaxHeap.len_eq] at hcard
    omega
  · rw [ht.stats, hleak]

end Qos
