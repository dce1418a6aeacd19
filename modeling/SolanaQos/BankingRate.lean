import SolanaQos.BankingOrder
/-!
# The output rate (`qos-core/src/banking.rs`, `timer/src/lib.rs`)

A batch is limited in size and the timer is restarted behind it, so two batches that sent something are at least one
interval apart, from the end of the one to the start of the other.  Whatever happens inside a batch takes place between
its two readings of the timer; a window of `k` intervals therefore meets at most `k` batches (`spaced_window`, a fact
about events and instants alone).

A run of the container is any sequence of its two operations.  Each call of `maybe_transmit` is recorded with its first
and its last reading and with what it pushed between them (`Transmission`); the recorded batches, one behind the other,
are what the producer got (`banking_pushed`).  `Paced` is the invariant: the timer holds a reading at or after the end
of every batch so far, and the batches so far are spaced.

The readings are those of a counter that does not go backwards, and it is calibrated; nothing is assumed of how fast it
runs between two readings.  The witness has two calls that send, the second as soon as it may, under a clock that jumps
a hundred ticks at each of its first readings (`jumpingSdk`).
-/
namespace Qos

open Runs

/-- **Bursts of at most `m` events, more than `d` apart**: a half-open window of length `k * d` holds at most `k * m`
events. -/
theorem spaced_window {β : Type} (start finish : β → Nat) (times : β → List Nat) {d m : Nat} :
    ∀ (bursts : List β) (w k : Nat),
      (∀ b ∈ bursts, (times b).length ≤ m ∧ ∀ x ∈ times b, start b ≤ x ∧ x ≤ finish b) →
      bursts.Pairwise (fun a b => times a ≠ [] → times b ≠ [] → finish a + d ≤ start b) →
      ((bursts.flatMap times).filter fun x => w ≤ x ∧ x < w + k * d).length ≤ k * m
  | [], w, k, _, _ => by simp
  | b :: bursts, w, k, hwithin, hspaced => by
    obtain ⟨hb, hrest⟩ := List.forall_mem_cons.1 hwithin
    obtain ⟨hgap, hspaced⟩ := List.pairwise_cons.1 hspaced
    rw [List.flatMap_cons, List.filter_append, List.length_append]
    by_cases hmeets : ∃ x ∈ times b, w ≤ x ∧ x < w + k * d
    · obtain ⟨x, hx, hlow, hhigh⟩ := hmeets
      obtain ⟨j, rfl⟩ : ∃ j, k = j + 1 := by
        cases k with
        | zero => omega
        | succ j => exact ⟨j, rfl⟩
      -- the bursts behind this one lie in the window of the remaining intervals
      have hlater : (bursts.flatMap times).filter (fun y => w ≤ y ∧ y < w + (j + 1) * d) =
          (bursts.flatMap times).filter (fun y => w + d ≤ y ∧ y < w + d + j * d) := by
        refine List.filter_congr fun y hy => ?_
        obtain ⟨b', hb', hy⟩ := List.mem_flatMap.1 hy
        have hstart := hgap b' hb' (List.ne_nil_of_mem hx) (List.ne_nil_of_mem hy)
        have := (hb.2 x hx).2
        have := ((hrest b' hb').2 y hy).1
        rw [Nat.succ_mul, decide_eq_decide]
        omega
      have hlast := spaced_window start finish times bursts (w + d) j hrest hspaced
      have hfirst := le_trans (List.length_filter_le (fun x => w ≤ x ∧ x < w + (j + 1) * d) (times b)) hb.1
      rw [hlater]
      calc _ ≤ m + j * m := Nat.add_le_add hfirst hlast
        _ = (j + 1) * m := by ring
    · have hnone : (times b).filter (fun x => w ≤ x ∧ x < w + k * d) = [] := by
        refine List.filter_eq_nil_iff.2 fun x hx hin => hmeets ⟨x, hx, ?_⟩
        exact of_decide_eq_true hin
      rw [hnone, List.length_nil, Nat.zero_add]
      exact spaced_window start finish times bursts w k hrest hspaced

variable {F : Type} [LinearOrder F] {H : HeapCrate (ScoredTransaction F)} {n sigCacheSize : Nat}

/-! ## Runs of the container -/

inductive BankingOp (F : Type) (sigCacheSize : Nat)
  | queue (tx : ScoredTransaction F) (stats : Stats)
  | maybeTransmit (stats : Stats) (recentSignatures : Lru.Cache UInt64 Unit sigCacheSize)

/-- A call of `maybe_transmit`: its first and its last reading of the timer, and what it pushed between them. -/
structure Transmission (F : Type) where
  start : UInt64
  finish : UInt64
  sent : List (ScoredTransaction F)

def bankingStep (sdk : Sdk) (s : TransactionContainer H n × Nat) :
    BankingOp F sigCacheSize → Except Panic (Option (Transmission F) × TransactionContainer H n × Nat)
  | .queue tx stats => do
    let (c, _) ← s.1.queue tx stats
    return (none, c, s.2)
  | .maybeTransmit stats recentSignatures => do
    let (batch, c, _, reads) ← s.1.maybeTransmit sdk stats recentSignatures s.2
    return (some ⟨sdk.tsc s.2, sdk.tsc (reads - 1), batch.sent⟩, c, reads)

def Transmittable (s : TransactionContainer H n × Nat) : Prop :=
  s.1.priorityQueueHeap.len < n ∧ ∃ txMut, s.1.transmitter = some txMut

theorem bankingStep_total {sdk : Sdk} (hticks : sdk.ticksPerMs ≠ 0) (s : TransactionContainer H n × Nat)
    (op : BankingOp F sigCacheSize) (h : Transmittable s) :
    ∃ o s', bankingStep sdk s op = .ok (o, s') ∧ Transmittable s' := by
  obtain ⟨hlt, txMut, htx⟩ := h
  cases op with
  | queue tx stats =>
    obtain ⟨c', stats', hqueue⟩ := queue_total hlt tx stats
    obtain ⟨evicted, -, hlt', hsame, -⟩ := queue_spec hlt hqueue
    exact ⟨none, (c', s.2), by rw [bankingStep, hqueue]; rfl, hlt', txMut, hsame.trans htx⟩
  | maybeTransmit stats recentSignatures =>
    obtain ⟨batch, c', stats', reads', hcall⟩ := maybeTransmit_total hticks htx stats recentSignatures s.2
    have ht := maybeTransmit_spec hcall
    obtain ⟨-, txMut', -, htx', -⟩ := ht.pushed
    have hcard := congrArg Multiset.card ht.items
    rw [Multiset.card_add, ← MinMaxHeap.len_eq, ← MinMaxHeap.len_eq] at hcard
    have hlt' : c'.priorityQueueHeap.len < n := by omega
    exact ⟨_, (c', reads'), by rw [bankingStep, hcall]; rfl, hlt', txMut', htx'⟩

/-- **Every sequence of calls returns**, with a transmitter and a calibrated counter. -/
theorem banking_total {sdk : Sdk} (hticks : sdk.ticksPerMs ≠ 0) (hn : 0 < n) (txMut : Producer) (targetPps : UInt64)
    (reads : Nat) (ops : List (BankingOp F sigCacheSize)) :
    ∃ os s, run (bankingStep sdk) ((TransactionContainer.new sdk (some txMut) targetPps reads :
      TransactionContainer H n), reads + 1) ops = .ok (os, s) := by
  have hnew : Transmittable ((TransactionContainer.new sdk (some txMut) targetPps reads :
      TransactionContainer H n), reads + 1) := by
    refine ⟨?_, txMut, rfl⟩
    show (MinMaxHeap.new : MinMaxHeap H n).len < n
    rwa [MinMaxHeap.len_new]
  obtain ⟨os, s, hrun, -⟩ := run_total (fun _ => True) Transmittable
    (fun s op _ hs => bankingStep_total hticks s op hs) ops _ (fun _ _ => trivial) hnew
  exact ⟨os, s, hrun⟩

/-- **The pace**: the timer holds a reading at or after the end of every batch sent, and the batches sent so far are
within the limit and an interval apart. -/
structure Paced (sdk : Sdk) (maxSend : UInt64) (ts : List (Transmission F)) (s : TransactionContainer H n × Nat) :
    Prop where
  limit : s.1.maxSend = maxSend
  lastSend : s.1.lastSend.toNat ≤ (sdk.tsc s.2).toNat
  sizes : ∀ t ∈ ts, t.sent.length ≤ maxSend.toNat
  ended : ∀ t ∈ ts, t.sent ≠ [] → t.finish.toNat ≤ s.1.lastSend.toNat
  spaced : ts.Pairwise fun a b =>
    a.sent ≠ [] → b.sent ≠ [] → a.finish.toNat + 100 * sdk.ticksPerMs.toNat ≤ b.start.toNat

theorem Paced.queue {sdk : Sdk} {maxSend : UInt64} {ts : List (Transmission F)} {c c' : TransactionContainer H n}
    {reads : Nat} (h : Paced sdk maxSend ts (c, reads)) (hlast : c'.lastSend = c.lastSend)
    (hmax : c'.maxSend = c.maxSend) : Paced sdk maxSend ts (c', reads) where
  limit := hmax.trans h.limit
  lastSend := by
    simp only [hlast]
    exact h.lastSend
  sizes := h.sizes
  ended := by
    simp only [hlast]
    exact h.ended
  spaced := h.spaced

theorem interval_of_tick {last now ticks : UInt64} (hle : last.toNat ≤ now.toNat)
    (htick : TransactionContainer.sendIntervalMs ≤ (now - last) / ticks) :
    last.toNat + 100 * ticks.toNat ≤ now.toNat := by
  rw [UInt64.le_iff_toNat_le, UInt64.toNat_div, UInt64.toNat_sub_of_le _ _ hle] at htick
  have hmul : 100 * ticks.toNat ≤ now.toNat - last.toNat := Nat.mul_le_of_le_div _ _ _ htick
  omega

/-- One more call: what it sent is within the limit, behind the timer and no later than the timer it leaves. -/
theorem Paced.append {sdk : Sdk} {maxSend : UInt64} {ts : List (Transmission F)} {c c' : TransactionContainer H n}
    {reads reads' : Nat} (h : Paced sdk maxSend ts (c, reads)) {t : Transmission F} (hmax : c'.maxSend = c.maxSend)
    (hlast : c.lastSend.toNat ≤ c'.lastSend.toNat) (hread : c'.lastSend.toNat ≤ (sdk.tsc reads').toNat)
    (hsize : t.sent.length ≤ maxSend.toNat)
    (hsent : t.sent ≠ [] → c.lastSend.toNat + 100 * sdk.ticksPerMs.toNat ≤ t.start.toNat ∧
      t.finish.toNat ≤ c'.lastSend.toNat) : Paced sdk maxSend (ts ++ [t]) (c', reads') where
  limit := hmax.trans h.limit
  lastSend := hread
  sizes := fun t' ht' => by
    rcases List.mem_append.1 ht' with ht' | ht'
    · exact h.sizes t' ht'
    · rw [List.mem_singleton.1 ht']
      exact hsize
  ended := fun t' ht' hne => by
    rcases List.mem_append.1 ht' with ht' | ht'
    · exact le_trans (h.ended t' ht' hne) hlast
    · rw [List.mem_singleton.1 ht'] at hne ⊢
      exact (hsent hne).2
  spaced := by
    refine List.pairwise_append.2 ⟨h.spaced, List.pairwise_singleton _ _, fun a ha b hb hnea hneb => ?_⟩
    rw [List.mem_singleton.1 hb] at hneb ⊢
    exact le_trans (Nat.add_le_add_right (h.ended a ha hnea) _) (hsent hneb).1

theorem Paced.transmit {sdk : Sdk} (hclock : ∀ i j, i ≤ j → sdk.tsc i ≤ sdk.tsc j) {maxSend : UInt64}
    {ts : List (Transmission F)} {c c' : TransactionContainer H n} {reads reads' : Nat} {stats stats' : Stats}
    {recentSignatures : Lru.Cache UInt64 Unit sigCacheSize} {txMut : Producer} {batch : Batch F}
    (h : Paced sdk maxSend ts (c, reads))
    (hturn : TransmitTurn sdk c stats recentSignatures reads txMut batch c' stats' reads') :
    Paced sdk maxSend (ts ++ [⟨sdk.tsc reads, sdk.tsc (reads' - 1), batch.sent⟩]) (c', reads') := by
  have hnext : c.lastSend.toNat ≤ (sdk.tsc (reads + 1)).toNat := le_trans h.lastSend (hclock _ _ (Nat.le_succ _))
  cases hturn with
  | early hearly => exact h.append rfl (le_refl _) hnext (Nat.zero_le _) (fun hne => absurd rfl hne)
  | tick batch heap stats' txMut' lastSend reads' htick hsend htimer =>
    have hsize : batch.sent.length ≤ maxSend.toNat := by
      have hle := (sendBatch_order recentSignatures _ _ _ _ _ _ _ _ hsend).2.2.2.1
      rwa [show c.maxSend = maxSend from h.limit] at hle
    rcases htimer with ⟨-, rfl, rfl⟩ | ⟨hnil, rfl, rfl⟩
    · exact h.append rfl hnext (hclock _ _ (Nat.le_succ _)) hsize
        (fun _ => ⟨interval_of_tick h.lastSend htick, le_refl _⟩)
    · exact h.append rfl (le_refl _) hnext hsize (fun hne => absurd hnil hne)

theorem Paced.step {sdk : Sdk} (hclock : ∀ i j, i ≤ j → sdk.tsc i ≤ sdk.tsc j) {maxSend : UInt64}
    (history : List (Option (Transmission F))) (s : TransactionContainer H n × Nat) (op : BankingOp F sigCacheSize)
    (o : Option (Transmission F)) (s' : TransactionContainer H n × Nat)
    (h : Paced sdk maxSend history.reduceOption s) (hstep : bankingStep sdk s op = .ok (o, s')) :
    Paced sdk maxSend (history ++ [o]).reduceOption s' := by
  rw [List.reduceOption_append]
  cases op with
  | queue tx stats =>
    obtain ⟨⟨c', stats'⟩, hqueue, he⟩ := bind_eq_ok hstep
    cases he
    obtain ⟨hlast, hmax⟩ := queue_frame hqueue
    simpa using Paced.queue h hlast hmax
  | maybeTransmit stats recentSignatures =>
    obtain ⟨⟨batch, c', stats', reads'⟩, hcall, he⟩ := bind_eq_ok hstep
    cases he
    obtain ⟨txMut, -, -, hturn⟩ := maybeTransmit_cases hcall
    exact Paced.transmit hclock h hturn

theorem maxSend_le (targetPps : UInt64) :
    (targetPps * TransactionContainer.sendIntervalMs / 1000).toNat ≤ targetPps.toNat / 10 := by
  rw [UInt64.toNat_div, UInt64.toNat_mul]
  simp only [TransactionContainer.sendIntervalMs, UInt64.reduceToNat]
  omega

theorem banking_pushed {sdk : Sdk} {txMut : Producer} {ops : List (BankingOp F sigCacheSize)}
    {os : List (Option (Transmission F))} {s s' : TransactionContainer H n × Nat} (htx : s.1.transmitter = some txMut)
    (hrun : run (bankingStep sdk) s ops = .ok (os, s')) :
    ∃ txMut', s'.1.transmitter = some txMut' ∧
      txMut'.pushed = txMut.pushed ++ os.reduceOption.flatMap fun t => t.sent.map ScoredTransaction.packet := by
  refine run_hist (fun history s => ∃ txMut', s.1.transmitter = some txMut' ∧ txMut'.pushed = txMut.pushed ++
    history.reduceOption.flatMap fun t => t.sent.map ScoredTransaction.packet) ?_ ops [] s os s'
    ⟨txMut, htx, by simp⟩ hrun
  rintro history s op o s' ⟨txMut', htx', hpushed⟩ hstep
  rw [List.reduceOption_append]
  cases op with
  | queue tx stats =>
    obtain ⟨⟨c', stats'⟩, hqueue, he⟩ := bind_eq_ok hstep
    cases he
    exact ⟨txMut', (queue_transmitter hqueue).trans htx', by simpa using hpushed⟩
  | maybeTransmit stats recentSignatures =>
    obtain ⟨⟨batch, c', stats', reads'⟩, hcall, he⟩ := bind_eq_ok hstep
    cases he
    obtain ⟨txMut₁, txMut₂, htx₁, htx₂, hpushed₂⟩ := (maybeTransmit_spec hcall).pushed
    cases htx'.symm.trans htx₁
    exact ⟨txMut₂, htx₂, by rw [hpushed₂, hpushed]; simp⟩

/-- **The output rate never exceeds the target.**  What the calls sent, in order, is what the producer got.  Two calls that
push are a hundred milliseconds apart, from the last reading of the one to the first of the other; and wherever the pushes
of each call lie between its two readings, a half-open window of `100 * k` milliseconds holds at most
`k * ⌊target_pps / 10⌋` of them. -/
theorem output_rate (sdk : Sdk) (hclock : ∀ i j, i ≤ j → sdk.tsc i ≤ sdk.tsc j) (transmitter : Option Producer)
    (targetPps : UInt64) (reads : Nat) (ops : List (BankingOp F sigCacheSize)) (os : List (Option (Transmission F)))
    (s : TransactionContainer H n × Nat)
    (hrun : run (bankingStep sdk) (TransactionContainer.new sdk transmitter targetPps reads, reads + 1) ops =
      .ok (os, s)) :
    (∀ txMut, transmitter = some txMut → ∃ txMut', s.1.transmitter = some txMut' ∧
      txMut'.pushed = txMut.pushed ++ os.reduceOption.flatMap fun t => t.sent.map ScoredTransaction.packet) ∧
    (os.reduceOption.Pairwise fun a b =>
      a.sent ≠ [] → b.sent ≠ [] → a.finish.toNat + 100 * sdk.ticksPerMs.toNat ≤ b.start.toNat) ∧
    ∀ timed : List (Transmission F × List Nat), timed.map Prod.fst = os.reduceOption →
      (∀ t ∈ timed, t.2.length = t.1.sent.length ∧ ∀ x ∈ t.2, t.1.start.toNat ≤ x ∧ x ≤ t.1.finish.toNat) →
      ∀ w k, ((timed.flatMap Prod.snd).filter fun x => w ≤ x ∧ x < w + k * (100 * sdk.ticksPerMs.toNat)).length ≤
        k * (targetPps.toNat / 10) := by
  have hstart : Paced sdk (targetPps * TransactionContainer.sendIntervalMs / 1000) ([] : List (Transmission F))
      ((TransactionContainer.new sdk transmitter targetPps reads : TransactionContainer H n), reads + 1) :=
    ⟨rfl, hclock _ _ (Nat.le_succ _), by simp, by simp, List.Pairwise.nil⟩
  have hpaced := run_hist (fun history s => Paced sdk (targetPps * TransactionContainer.sendIntervalMs / 1000)
    history.reduceOption s) (fun history s op o s' => Paced.step hclock history s op o s') ops [] _ os s hstart hrun
  rw [List.nil_append] at hpaced
  refine ⟨fun txMut htx => banking_pushed htx hrun, hpaced.spaced, fun timed htimed hwithin w k => ?_⟩
  have hmem : ∀ t ∈ timed, t.1 ∈ os.reduceOption := fun t ht => htimed ▸ List.mem_map_of_mem ht
  have hwindow := spaced_window (fun t => t.1.start.toNat) (fun t => t.1.finish.toNat) Prod.snd
    (d := 100 * sdk.ticksPerMs.toNat) timed w k
    (fun t ht => ⟨by rw [(hwithin t ht).1]; exact hpaced.sizes t.1 (hmem t ht), (hwithin t ht).2⟩) ?_
  · exact le_trans hwindow (Nat.mul_le_mul_left k (maxSend_le targetPps))
  · have hspaced := hpaced.spaced
    rw [← htimed, List.pairwise_map] at hspaced
    refine hspaced.imp_of_mem fun {a b} ha hb hab hnea hneb => hab ?_ ?_
    · exact List.ne_nil_of_length_pos ((hwithin a ha).1 ▸ List.length_pos_iff.2 hnea)
    · exact List.ne_nil_of_length_pos ((hwithin b hb).1 ▸ List.length_pos_iff.2 hneb)

/-- A clock that jumps a hundred ticks at each of its first ten readings. -/
def jumpingSdk : Sdk := { refusingSdk with tsc := fun i => UInt64.ofNat (min i 10 * 100) }

theorem jumpingSdk_mono (i j : Nat) (hij : i ≤ j) : jumpingSdk.tsc i ≤ jumpingSdk.tsc j := by
  have hi : min i 10 * 100 < 2 ^ 64 := by omega
  have hj : min j 10 * 100 < 2 ^ 64 := by omega
  show UInt64.ofNat (min i 10 * 100) ≤ UInt64.ofNat (min j 10 * 100)
  rw [UInt64.le_iff_toNat_le, UInt64.toNat_ofNat', UInt64.toNat_ofNat', Nat.mod_eq_of_lt hi, Nat.mod_eq_of_lt hj]
  omega

theorem queue_transmit_one {sdk : Sdk} (hticks : sdk.ticksPerMs ≠ 0) {c : TransactionContainer H n} {txMut : Producer}
    (hn : 1 < n) (hempty : c.priorityQueueHeap.items = 0) (htx : c.transmitter = some txMut)
    (hlimit : 1 ≤ c.maxSend.toNat) (reads : Nat)
    (htick : TransactionContainer.sendIntervalMs ≤ (sdk.tsc reads - c.lastSend) / sdk.ticksPerMs)
    (recentSignatures : Lru.Cache UInt64 Unit sigCacheSize) (tx : ScoredTransaction F)
    (hfresh : recentSignatures.contains tx.sigKey = false) :
    ∃ c' txMut', run (bankingStep sdk) (c, reads) [.queue tx {}, .maybeTransmit {} recentSignatures] =
        .ok ([none, some ⟨sdk.tsc reads, sdk.tsc (reads + 1), [tx]⟩], (c', reads + 2)) ∧
      c'.priorityQueueHeap.items = 0 ∧ c'.transmitter = some txMut' ∧ c'.maxSend = c.maxSend ∧
      c'.lastSend = sdk.tsc (reads + 1) := by
  have hlen : c.priorityQueueHeap.len = 0 := by rw [MinMaxHeap.len_eq, hempty, Multiset.card_zero]
  obtain ⟨c₁, stats₁, hqueue⟩ := queue_total (c := c) (by omega) tx {}
  obtain ⟨hitems, -⟩ := queue_holds (by omega) hqueue
  obtain ⟨hlast, hmax⟩ := queue_frame hqueue
  rw [hempty] at hitems
  have htx₁ := (queue_transmitter hqueue).trans htx
  obtain ⟨batch, c', stats', reads', hcall⟩ := maybeTransmit_total hticks htx₁ {} recentSignatures reads
  obtain ⟨txMut₁, -, -, hturn⟩ := maybeTransmit_cases hcall
  cases hturn with
  | early hearly =>
    rw [hlast] at hearly
    exact absurd htick (UInt64.not_le.2 hearly)
  | tick batch heap stats₂ txMut₂ lastSend reads' _ hsend htimer =>
    have hitem : freshItems recentSignatures c₁.priorityQueueHeap = {tx} := by
      unfold freshItems
      rw [hitems]
      simp [hfresh]
    obtain ⟨hcount, hsub⟩ := sendBatch_best hsend
    rw [hitem, hmax, Multiset.card_singleton, Nat.min_eq_right hlimit] at hcount
    have hsent : batch.sent = [tx] := by
      rw [← Multiset.coe_eq_singleton, ← hitem]
      exact Multiset.eq_of_le_of_card_le hsub (by rw [hitem, Multiset.card_singleton, Multiset.coe_card, hcount])
    have hrest := congrArg Multiset.card (sendBatch_spec recentSignatures _ _ _ _ _ _ _ _ hsend).1
    rw [hitems, hsent, Multiset.card_add, Multiset.card_add, Multiset.card_cons, Multiset.card_zero] at hrest
    rcases htimer with ⟨-, rfl, rfl⟩ | ⟨hnil, -, -⟩
    · refine ⟨⟨heap, some txMut₂.sync, sdk.tsc (reads + 1), c₁.maxSend⟩, _, ?_, Multiset.card_eq_zero.1 ?_, rfl, hmax, rfl⟩
      · have hfirst : bankingStep sdk (c, reads) (.queue tx {} : BankingOp F sigCacheSize) = .ok (none, c₁, reads) := by
          rw [bankingStep, hqueue]
          rfl
        have hsecond : bankingStep sdk (c₁, reads) (.maybeTransmit {} recentSignatures) =
            .ok (some ⟨sdk.tsc reads, sdk.tsc (reads + 1), [tx]⟩,
              ⟨heap, some txMut₂.sync, sdk.tsc (reads + 1), c₁.maxSend⟩, reads + 2) := by
          rw [bankingStep, hcall, ← hsent]
          rfl
        simp only [run, hfirst, hsecond, ok_bind]
      · show heap.items.card = 0
        simp only [Multiset.coe_card, List.length_singleton] at hrest
        omega
    · rw [hsent] at hnil
      cases hnil

/-- Two transactions go out one after the other, the second as soon as it may. -/
theorem output_rate_two :
    ∃ (s : TransactionContainer scoreHeap queueSize × Nat) (txMut : Producer) (tx tx' : ScoredTransaction ℚ),
      run (bankingStep jumpingSdk) (TransactionContainer.new jumpingSdk (some {}) 10 0, 0 + 1)
        [.queue tx {}, .maybeTransmit {} (Lru.Cache.new Nat.one_pos : Lru.Cache UInt64 Unit 1),
          .queue tx' {}, .maybeTransmit {} (.new Nat.one_pos)] =
        .ok ([none, some ⟨100, 200, [tx]⟩, none, some ⟨300, 400, [tx']⟩], s) ∧
      s.1.transmitter = some txMut ∧ txMut.pushed = [tx.packet, tx'.packet] ∧
      (200 : UInt64).toNat + 100 * 1 ≤ (300 : UInt64).toNat ∧
      ([150, 350].filter fun x => 100 ≤ x ∧ x < 100 + 3 * (100 * 1)).length ≤ 3 * (10 / 10) := by
  have hticks : jumpingSdk.ticksPerMs ≠ 0 := by decide
  have hfresh : ∀ key, (Lru.Cache.new Nat.one_pos : Lru.Cache UInt64 Unit 1).contains key = false := by
    intro key
    rw [Lru.Cache.contains_eq, Lru.Cache.lookup_new]
    rfl
  obtain ⟨c, txMut, h, hempty, htx, hmax, hlast⟩ := queue_transmit_one (H := scoreHeap) (n := queueSize) hticks
    (c := .new jumpingSdk (some {}) 10 0) (by decide) MinMaxHeap.items_new rfl (by decide) 1 (by decide)
    (Lru.Cache.new Nat.one_pos : Lru.Cache UInt64 Unit 1) ⟨1, 7, emptyPacket ⟨#v[1, 2, 3, 4]⟩, 0⟩ (hfresh _)
  obtain ⟨c', txMut', h', -⟩ := queue_transmit_one hticks (by decide) hempty htx (by rw [hmax]; decide) 3
    (by rw [hlast]; decide) (Lru.Cache.new Nat.one_pos : Lru.Cache UInt64 Unit 1)
    ⟨2, 8, emptyPacket ⟨#v[1, 2, 3, 4]⟩, 0⟩ (hfresh _)
  have hrun := run_append h h'
  obtain ⟨hpushed, hspaced, hwindow⟩ := output_rate jumpingSdk jumpingSdk_mono _ _ _ _ _ _ hrun
  obtain ⟨txMut'', htx'', hpushed⟩ := hpushed {} rfl
  refine ⟨_, txMut'', _, _, hrun, htx'', hpushed, ?_, ?_⟩
  · exact (List.pairwise_cons.1 hspaced).1 _ (List.mem_singleton.2 rfl) (List.cons_ne_nil _ _) (List.cons_ne_nil _ _)
  · refine hwindow [(⟨100, 200, [_]⟩, [150]), (⟨300, 400, [_]⟩, [350])] rfl ?_ 100 3
    simp

end Qos
