import SolanaQos.LoopAccept
/-!
# Every accepted packet is credited at most once, to its own sender

A partial meta enters the cache when its packet is admitted and leaves it when it is credited or evicted, so the
credits for a hash, plus one if the hash is still stored, never exceed the admissions for it (`Credited`).  What is
stored was computed from a packet with that hash; if the hash function does not collide on the packets of the run, from
every such packet.

A credit is an entry pushed to the complete metas (`Event.credit`).  `Batched` follows the entries: in the order in
which they were completed they make up the batches handed to the model, one behind the other, and what is pending;
every batch has 401.  So the entries counted by the theorem are those that reach the model, and not only labels of
events.

`credited_once` has two parts: for every hash, the entries credited to it are no more than the packets with that hash
that were admitted; and each entry is the credit of a packet that was seen before, under its address, its fee payer and
its fee over the reported time, ten times as much if it was scheduled (`OwnCredit`).

The witness admits a packet, credits it and repeats the report: the second one finds nothing.
-/
namespace Qos

open Runs

section Traces

variable {F : Type}

def Event.admits (sdk : Sdk) (key : UInt64) : Event F → Bool
  | .packet p (.ok _) _ =>
    match packetHash sdk p with
    | .ok k => k == key
    | .error _ => false
  | _ => false

def Event.credits (key : UInt64) : Event F → Bool
  | .remainingMeta m (some _) _ => m.packetHash == key
  | _ => false

def Event.completed : Event F → Option (QoSTransactionMeta F)
  | .remainingMeta _ completed _ => completed
  | _ => none

/-- The entry an event completed, with its hash. -/
def Event.credit : Event F → Option (UInt64 × QoSTransactionMeta F)
  | .remainingMeta m (some entry) _ => some (m.packetHash, entry)
  | _ => none

/-- The batch an event handed to `update_model`. -/
def Event.handed : Event F → Option (List (QoSTransactionMeta F))
  | .remainingMeta _ _ updated => updated
  | _ => none

def Event.about (packet : Packet) : Event F → Prop
  | .packet p _ _ => p = packet
  | _ => False

/-- The hash tells the packets of a trace apart by their preimages. -/
def CollisionFree (sdk : Sdk) (trace : List (Event F)) : Prop :=
  ∀ event ∈ trace, ∀ event' ∈ trace, ∀ packet packet' key, event.about packet → event'.about packet' →
    packetHash sdk packet = .ok key → packetHash sdk packet' = .ok key → preimage packet = preimage packet'

/-- **The entry is the credit of this packet**: its address key, its fee payer, and its fee over the execution time. -/
def CreditOf (sdk : Sdk) (packet : Packet) (m : QoSRemainingMeta) (entry : QoSTransactionMeta ℚ) : Prop :=
  ∃ ipv4 view feePayer fee, Readable sdk packet ipv4 view ∧ view.feePayer = some feePayer ∧
    totalFee sdk view = .ok fee ∧ packetHash sdk packet = .ok m.packetHash ∧
    entry = ⟨u32FromLeBytes ipv4.octets, feePayer,
      if m.executionNanos = 0 then (fee.totalFee.toNat : ℚ) / 100000
      else 10 * (fee.totalFee.toNat : ℚ) / (m.executionNanos.toNat : ℚ)⟩

theorem countP_append_one {α : Type} (p : α → Bool) (l : List α) (a : α) :
    (l ++ [a]).countP p = l.countP p + if p a = true then 1 else 0 := by
  rw [List.countP_append, List.countP_singleton]

theorem map_credit (trace : List (Event F)) :
    (trace.filterMap Event.credit).map Prod.snd = trace.filterMap Event.completed := by
  rw [List.map_filterMap]
  refine List.filterMap_congr fun event _ => ?_
  cases event with
  | remainingMeta m completed updated => cases completed <;> rfl
  | _ => rfl

theorem count_credit (trace : List (Event F)) (key : UInt64) :
    ((trace.filterMap Event.credit).map Prod.fst).count key = trace.countP (Event.credits key) := by
  rw [List.count_eq_countP, List.countP_map, List.countP_filterMap]
  refine List.countP_congr fun event _ => ?_
  cases event with
  | remainingMeta m completed updated => cases completed <;> rfl
  | _ => rfl

end Traces

namespace QosState

theorem completeEntry_eq (partialMeta : QoSPartialMeta) (m : QoSRemainingMeta) :
    (completeEntry partialMeta m : QoSTransactionMeta ℚ) = ⟨partialMeta.ip, partialMeta.signer,
      if m.executionNanos = 0 then (partialMeta.totalFee.toNat : ℚ) / 100000
      else 10 * (partialMeta.totalFee.toNat : ℚ) / (m.executionNanos.toNat : ℚ)⟩ := by
  unfold completeEntry QoSPartialMeta.merge
  by_cases hnanos : m.executionNanos = 0
  · simp [hnanos]
  · have hpos : 0 < m.executionNanos := UInt64.pos_iff_ne_zero.2 hnanos
    simp only [hnanos, hpos, if_true, if_false, QoSTransactionMeta.mk.injEq, true_and]
    norm_num
    ring

theorem completeEntry_ip {F : Type} [Mul F] [Div F] [NatCast F] [OfScientific F] (partialMeta : QoSPartialMeta)
    (m : QoSRemainingMeta) : (completeEntry partialMeta m : QoSTransactionMeta F).ip = partialMeta.ip := by
  unfold completeEntry
  split <;> rfl

variable {S : Sokoban} {F : Type} [LinearOrder F] {H : HeapCrate (ScoredTransaction F)}

/-- **Credits and what is still stored are covered by admissions**, and what is stored was seen. -/
structure Credited (sdk : Sdk) (trace : List (Event F)) (q : QosState S H) : Prop where
  counts : ∀ key, trace.countP (Event.credits key) + (if (q.partialMetas.lookup key).isSome = true then 1 else 0) ≤
    trace.countP (Event.admits sdk key)
  stored : ∀ key partialMeta, q.partialMetas.lookup key = some partialMeta →
    ∃ event ∈ trace, ∃ packet, event.about packet ∧ Storable sdk packet key partialMeta
  admitted : ∀ packet tx batch, Event.packet packet (.ok tx) batch ∈ trace →
    ∃ key partialMeta, Storable sdk packet key partialMeta

theorem credited_init (sdk : Sdk) (args : Args) : (init sdk args : QosState S H).Credited sdk [] where
  counts := fun key => by
    rw [show (init sdk args : QosState S H).partialMetas.lookup key = none from Lru.Cache.lookup_new _ key]
    simp
  stored := fun key partialMeta h => by
    rw [show (init sdk args : QosState S H).partialMetas.lookup key = none from Lru.Cache.lookup_new _ key] at h
    cases h
  admitted := fun packet tx batch h => by cases h

theorem Credited.quiet {sdk : Sdk} {trace : List (Event F)} {q q' : QosState S H} {event : Event F}
    (h : q.Credited sdk trace) (hcache : q'.partialMetas = q.partialMetas) (hcredits : ∀ key, event.credits key = false)
    (hadmits : ∀ packet tx batch, event ≠ .packet packet (.ok tx) batch) : q'.Credited sdk (trace ++ [event]) where
  counts := fun key => by
    rw [countP_append_one, countP_append_one, hcredits, hcache, if_neg Bool.false_ne_true, Nat.add_zero]
    exact Nat.le_trans (h.counts key) (Nat.le_add_right _ _)
  stored := fun key partialMeta hl => by
    rw [hcache] at hl
    obtain ⟨event', hmem, hrest⟩ := h.stored key partialMeta hl
    exact ⟨event', List.mem_append.2 (Or.inl hmem), hrest⟩
  admitted := fun packet tx batch hmem => by
    rcases List.mem_append.1 hmem with hmem | hmem
    · exact h.admitted packet tx batch hmem
    · exact absurd (List.mem_singleton.1 hmem).symm (hadmits packet tx batch)

theorem Credited.put {sdk : Sdk} {trace : List (Event F)} {q q' : QosState S H} {packet : Packet} {batch : Batch F}
    {result : Except PacketProcessorError (ScoredTransaction F)} {key : UInt64} {partialMeta : QoSPartialMeta}
    (h : q.Credited sdk trace) (hstore : Storable sdk packet key partialMeta)
    (hcache : q'.partialMetas = (q.partialMetas.put key partialMeta).2)
    (hreached : (q.partialMetas.lookup key).isSome = true ∨ ∃ tx, result = .ok tx) :
    q'.Credited sdk (trace ++ [.packet packet result batch]) where
  counts := fun k => by
    have hk := h.counts k
    rw [countP_append_one, countP_append_one, hcache]
    by_cases hkk : k = key
    · subst hkk
      rw [Lru.Cache.lookup_put_self]
      rcases hreached with hdup | ⟨tx, rfl⟩
      · rw [if_pos hdup] at hk
        simp only [Event.credits, Bool.false_eq_true, if_false, Option.isSome_some, if_true]
        omega
      · simp only [Event.credits, Event.admits, hstore.hash, beq_self_eq_true, Bool.false_eq_true, if_false,
          Option.isSome_some, if_true]
        omega
    · -- another hash can only lose its entry
      have hle : (if ((q.partialMetas.put key partialMeta).2.lookup k).isSome = true then 1 else 0) ≤
          if (q.partialMetas.lookup k).isSome = true then 1 else 0 := by
        cases hl : (q.partialMetas.put key partialMeta).2.lookup k with
        | none => simp
        | some w => simp [Lru.Cache.lookup_put_of_ne partialMeta hkk hl]
      simp only [Event.credits, Bool.false_eq_true, if_false]
      omega
  stored := fun k w hl => by
    rw [hcache] at hl
    by_cases hkk : k = key
    · subst hkk
      rw [Lru.Cache.lookup_put_self] at hl
      cases hl
      exact ⟨_, List.mem_append.2 (Or.inr (List.mem_singleton.2 rfl)), packet, rfl, hstore⟩
    · obtain ⟨event', hmem, hrest⟩ := h.stored k w (Lru.Cache.lookup_put_of_ne partialMeta hkk hl)
      exact ⟨event', List.mem_append.2 (Or.inl hmem), hrest⟩
  admitted := fun p tx b hmem => by
    rcases List.mem_append.1 hmem with hmem | hmem
    · exact h.admitted p tx b hmem
    · cases List.mem_singleton.1 hmem
      exact ⟨key, partialMeta, hstore⟩

theorem Credited.pop {sdk : Sdk} {trace : List (Event F)} {q q' : QosState S H} {m : QoSRemainingMeta}
    {entry : QoSTransactionMeta F} {updated : Option (List (QoSTransactionMeta F))} (h : q.Credited sdk trace)
    (hlookup : (q.partialMetas.lookup m.packetHash).isSome = true)
    (hcache : q'.partialMetas = (q.partialMetas.pop m.packetHash).2) :
    q'.Credited sdk (trace ++ [.remainingMeta m (some entry) updated]) where
  counts := fun k => by
    have hk := h.counts k
    rw [countP_append_one, countP_append_one, hcache, Lru.Cache.lookup_pop]
    by_cases hkk : k = m.packetHash
    · rw [hkk, if_pos hlookup] at hk
      simp only [Event.credits, Event.admits, hkk, beq_self_eq_true, if_true, Option.isSome_none, Bool.false_eq_true,
        if_false]
      omega
    · have hne : (m.packetHash == k) = false := by simpa using Ne.symm hkk
      simp only [Event.credits, Event.admits, hne, Bool.false_eq_true, if_false, hkk]
      omega
  stored := fun k w hl => by
    rw [hcache, Lru.Cache.lookup_pop] at hl
    split at hl
    · cases hl
    · obtain ⟨event', hmem, hrest⟩ := h.stored k w hl
      exact ⟨event', List.mem_append.2 (Or.inl hmem), hrest⟩
  admitted := fun p tx b hmem => by
    rcases List.mem_append.1 hmem with hmem | hmem
    · exact h.admitted p tx b hmem
    · cases List.mem_singleton.1 hmem

/-! ## Batches -/

/-- **Each completed entry is in one batch or pending**, the batches in order. -/
structure Batched (trace : List (Event F)) (q : QosState S H) : Prop where
  pending : q.completeMetas.length ≤ 400
  sizes : ∀ batch ∈ trace.filterMap Event.handed, batch.length = 401
  once : trace.filterMap Event.completed = (trace.filterMap Event.handed).flatten ++ q.completeMetas

theorem Batched.quiet {trace : List (Event F)} {q q' : QosState S H} {event : Event F} (h : q.Batched trace)
    (hmetas : q'.completeMetas = q.completeMetas) (hcompleted : event.completed = none) (hhanded : event.handed = none) :
    q'.Batched (trace ++ [event]) := by
  have htrace : (trace ++ [event]).filterMap Event.completed = trace.filterMap Event.completed ∧
      (trace ++ [event]).filterMap Event.handed = trace.filterMap Event.handed := by
    simp [List.filterMap_append, hcompleted, hhanded]
  refine ⟨by rw [hmetas]; exact h.pending, ?_, ?_⟩
  · rw [htrace.2]
    exact h.sizes
  · rw [htrace.1, htrace.2, hmetas]
    exact h.once

theorem batched_init (sdk : Sdk) (args : Args) : (init sdk args : QosState S H).Batched [] :=
  ⟨Nat.zero_le _, fun _ h => absurd h List.not_mem_nil, rfl⟩

section Turns

variable [Zero F] [One F] [Add F] [Sub F] [Mul F] [Div F] [NatCast F] [OfScientific F]

omit [Zero F] [One F] [Add F] [Sub F] [Div F] [NatCast F] in
theorem Credited.packetTurn {sdk : Sdk} {trace : List (Event F)} {q q' : QosState S H} {packet : Packet}
    {event : Event F} (h : q.Credited sdk trace) (hturn : PacketTurn sdk q packet event q') :
    q'.Credited sdk (trace ++ [event]) := by
  cases hturn with
  | rejected r e hout hresult =>
    rcases hout.cache_cases with ⟨hcache, -⟩ | ⟨key, partialMeta, hstore, hcache, hput⟩
    · exact h.quiet hcache (fun _ => rfl) (fun _ _ _ => by simp)
    · refine h.put hstore hcache (hput.imp (fun hdup => hdup.2) ?_)
      rintro ⟨⟨tx, hok⟩, -⟩
      rw [hresult] at hok
      cases hok
  | queued r tx zeroScore reads queued sent stats stats' batch hout hresult hqueue htransmit =>
    rcases hout.cache_cases with ⟨-, e, herror, -⟩ | ⟨key, partialMeta, hstore, hcache, hput⟩
    · rw [hresult] at herror
      cases herror
    · exact h.put hstore hcache (Or.inr ⟨tx, rfl⟩)

theorem Credited.turn {sdk : Sdk} {args : Args} {trace : List (Event F)} {q q' : QosState S H} {message : Message}
    {event : Event F} (h : q.Credited sdk trace) (hturn : q.turn sdk args message = .ok (event, q')) :
    q'.Credited sdk (trace ++ [event]) := by
  cases turn_cases hturn with
  | packet hturn => exact h.packetTurn hturn
  | recentSignature signature => exact h.quiet rfl (fun _ => rfl) (fun _ _ _ => by simp)
  | remainingMeta hturn =>
    cases hturn with
    | absent habsent => exact h.quiet rfl (fun _ => rfl) (fun _ _ _ => by simp)
    | completed partialMeta hlookup hlen => exact h.pop (by rw [hlookup]; rfl) rfl
    | updated partialMeta model hlookup hlen hmodel => exact h.pop (by rw [hlookup]; rfl) rfl
  | sigverifyFailed model hmodel => exact h.quiet rfl (fun _ => rfl) (fun _ _ _ => by simp)

omit [Zero F] in
theorem Batched.remainingMetaTurn {args : Args} {trace : List (Event F)} {q q' : QosState S H} {m : QoSRemainingMeta}
    {event : Event F} (h : q.Batched trace) (hturn : RemainingMetaTurn args q m event q') :
    q'.Batched (trace ++ [event]) := by
  cases hturn with
  | absent habsent => exact h.quiet rfl rfl rfl
  | completed partialMeta hlookup hlen =>
    refine ⟨?_, ?_, ?_⟩
    · rw [List.length_append, List.length_singleton]
      omega
    · rw [List.filterMap_append]
      simpa [Event.handed] using h.sizes
    · rw [List.filterMap_append, List.filterMap_append, h.once]
      simp [Event.completed, Event.handed]
  | updated partialMeta model hlookup hlen hmodel =>
    have hpending := h.pending
    refine ⟨Nat.zero_le _, fun batch hbatch => ?_, ?_⟩
    · rw [List.filterMap_append, List.mem_append] at hbatch
      rcases hbatch with hbatch | hbatch
      · exact h.sizes batch hbatch
      · rw [List.filterMap_cons, List.filterMap_nil, Event.handed] at hbatch
        rw [List.mem_singleton.1 hbatch, List.length_append, List.length_singleton]
        omega
    · rw [List.filterMap_append, List.filterMap_append, h.once]
      simp [Event.completed, Event.handed]

theorem Batched.turn {sdk : Sdk} {args : Args} {trace : List (Event F)} {q q' : QosState S H} {message : Message}
    {event : Event F} (h : q.Batched trace) (hturn : q.turn sdk args message = .ok (event, q')) :
    q'.Batched (trace ++ [event]) := by
  cases turn_cases hturn with
  | packet hturn =>
    cases hturn with
    | rejected r e hout hresult => exact h.quiet rfl rfl rfl
    | queued r tx zeroScore reads queued sent stats stats' batch hout hresult hqueue htransmit =>
      exact h.quiet rfl rfl rfl
  | recentSignature signature => exact h.quiet rfl rfl rfl
  | remainingMeta hturn => exact h.remainingMetaTurn hturn
  | sigverifyFailed model hmodel => exact h.quiet rfl rfl rfl

theorem batched_run {sdk : Sdk} {args : Args} {calls : List Call} {events : List (List (Event F))} {q : QosState S H}
    (hrun : run (call sdk args) (init sdk args) calls = .ok (events, q)) : q.Batched events.flatten := by
  obtain ⟨messages, hturns⟩ := run_calls hrun
  have hhist := run_hist Batched (fun trace q m event q' hq hturn => hq.turn hturn) messages [] _ _ _
    (batched_init sdk args) hturns
  rwa [List.nil_append] at hhist

omit [Zero F] in
theorem remainingMetaTurn_absent {args : Args} {q : QosState S H} {m : QoSRemainingMeta}
    (habsent : q.partialMetas.contains m.packetHash = false) :
    q.remainingMetaTurn args m = .ok (.remainingMeta m none none, q) := by
  unfold remainingMetaTurn
  rw [Lru.Cache.pop_of_absent habsent]
  rfl

omit [Zero F] in
theorem remainingMetaTurn_completes (args : Args) {q : QosState S H} {m : QoSRemainingMeta} {partialMeta : QoSPartialMeta}
    (hlookup : q.partialMetas.lookup m.packetHash = some partialMeta) (hlen : q.completeMetas.length < 400) :
    ∃ q', q.remainingMetaTurn args m = .ok (.remainingMeta m (some (completeEntry partialMeta m)) none, q') ∧
      q'.completeMetas = q.completeMetas ++ [completeEntry partialMeta m] ∧
      q'.partialMetas = (q.partialMetas.pop m.packetHash).2 := by
  have hcontains : q.partialMetas.contains m.packetHash = true := by
    rw [Lru.Cache.contains_eq, hlookup]
    rfl
  obtain ⟨stored, hstored, hpop⟩ := Lru.Cache.pop_of_present hcontains
  obtain rfl : partialMeta = stored := Option.some.inj (hlookup.symm.trans hstored)
  have he : q.partialMetas.pop m.packetHash =
      (some (m.packetHash, partialMeta), (q.partialMetas.pop m.packetHash).2) := by rw [← hpop]
  have hfits : ¬ 400 < (q.completeMetas ++ [completeEntry partialMeta m]).length := by
    rw [List.length_append, List.length_singleton]
    omega
  unfold remainingMetaTurn
  rw [he]
  simp only [if_neg hfits]
  exact ⟨_, rfl, rfl, rfl⟩

theorem credited_run {sdk : Sdk} {args : Args} {calls : List Call} {events : List (List (Event F))} {q : QosState S H}
    (hrun : run (call sdk args) (init sdk args) calls = .ok (events, q)) : q.Credited sdk events.flatten := by
  obtain ⟨messages, hturns⟩ := run_calls hrun
  have hhist := run_hist (Credited sdk) (fun trace q m event q' hq hturn => hq.turn hturn) messages [] _ _ _
    (credited_init sdk args) hturns
  rwa [List.nil_append] at hhist

end Turns

section Exact

variable {H : HeapCrate (ScoredTransaction ℚ)}

theorem creditOf_of_storable {sdk : Sdk} {packet : Packet} {m : QoSRemainingMeta} {partialMeta : QoSPartialMeta}
    (h : Storable sdk packet m.packetHash partialMeta) : CreditOf sdk packet m (completeEntry partialMeta m) := by
  obtain ⟨ipv4, view, feePayer, fee, hread, hpayer, hfee, rfl⟩ := h.readable
  exact ⟨ipv4, view, feePayer, fee, hread, hpayer, hfee, h.hash, completeEntry_eq _ m⟩

/-- **A credit is somebody's own**: it is the credit of a packet seen before; and if the hash does not collide on what
was seen, a packet with that hash was admitted before and it is the credit of every such packet. -/
def OwnCredit (sdk : Sdk) (before : List (Event ℚ)) (m : QoSRemainingMeta) (entry : QoSTransactionMeta ℚ) : Prop :=
  (∃ event ∈ before, ∃ packet, event.about packet ∧ CreditOf sdk packet m entry) ∧
    (CollisionFree sdk before →
      (∃ packet tx batch, Event.packet packet (.ok tx) batch ∈ before ∧ packetHash sdk packet = .ok m.packetHash) ∧
      ∀ packet tx batch, Event.packet packet (.ok tx) batch ∈ before → packetHash sdk packet = .ok m.packetHash →
        CreditOf sdk packet m entry)

theorem Credited.ownCredit {sdk : Sdk} {trace : List (Event ℚ)} {q : QosState S H} {m : QoSRemainingMeta}
    {partialMeta : QoSPartialMeta} (h : q.Credited sdk trace)
    (hlookup : q.partialMetas.lookup m.packetHash = some partialMeta) :
    OwnCredit sdk trace m (completeEntry partialMeta m) := by
  obtain ⟨event, hmem, packet, habout, hstore⟩ := h.stored _ _ hlookup
  refine ⟨⟨event, hmem, packet, habout, creditOf_of_storable hstore⟩, fun hfree => ⟨?_, ?_⟩⟩
  · -- the entry that is still stored is an admission without its credit
    have hcount := h.counts m.packetHash
    rw [hlookup, Option.isSome_some, if_pos rfl] at hcount
    obtain ⟨event', hmem', hadmits⟩ := List.countP_pos_iff.1 (Nat.lt_of_lt_of_le (Nat.succ_pos _) hcount)
    unfold Event.admits at hadmits
    split at hadmits
    · rename_i packet' tx batch
      split at hadmits
      · rename_i key hhash
        exact ⟨packet', tx, batch, hmem', by rw [hhash, beq_iff_eq.1 hadmits]⟩
      · cases hadmits
    · cases hadmits
  · intro packet' tx batch hmem' hhash
    obtain ⟨key, partialMeta', hstore'⟩ := h.admitted packet' tx batch hmem'
    have hkey : key = m.packetHash := Except.ok.inj (hstore'.hash.symm.trans hhash)
    have hpreimage := hfree event hmem _ hmem' packet packet' m.packetHash habout rfl hstore.hash hhash
    rw [hstore.unique hstore' hpreimage]
    exact creditOf_of_storable (hkey ▸ hstore')

def Owned (sdk : Sdk) (before : List (Event ℚ)) : Event ℚ → Prop
  | .remainingMeta m (some entry) _ => OwnCredit sdk before m entry
  | _ => True

theorem Credited.owned {sdk : Sdk} {args : Args} {trace : List (Event ℚ)} {q q' : QosState S H} {message : Message}
    {event : Event ℚ} (h : q.Credited sdk trace) (hturn : q.turn sdk args message = .ok (event, q')) :
    Owned sdk trace event := by
  cases turn_cases hturn with
  | packet hturn => cases hturn <;> trivial
  | recentSignature signature => trivial
  | remainingMeta hturn =>
    cases hturn with
    | absent habsent => trivial
    | completed partialMeta hlookup hlen => exact h.ownCredit hlookup
    | updated partialMeta model hlookup hlen hmodel => exact h.ownCredit hlookup
  | sigverifyFailed model hmodel => trivial

/-- **Every accepted packet is credited at most once, to its own sender.**  The entries pushed are those of the batches
handed to the model and those still pending, in order; for each hash they are at most the admissions; each is the credit of
its own packet; and a message for an unknown hash changes nothing. -/
theorem credited_once (sdk : Sdk) (args : Args) (calls : List Call) (events : List (List (Event ℚ)))
    (q : QosState S H) (hrun : run (call sdk args) (init sdk args) calls = .ok (events, q)) :
    (events.flatten.filterMap Event.credit).map Prod.snd =
        (events.flatten.filterMap Event.handed).flatten ++ q.completeMetas ∧
      (∀ key, ((events.flatten.filterMap Event.credit).map Prod.fst).count key ≤
        events.flatten.countP (Event.admits sdk key)) ∧
      (∀ before m entry updated after,
        events.flatten = before ++ Event.remainingMeta m (some entry) updated :: after → OwnCredit sdk before m entry) ∧
      ∀ m, q.partialMetas.contains m.packetHash = false →
        q.turn sdk args (.remainingMeta m) = .ok (.remainingMeta m none none, q) := by
  obtain ⟨messages, hturns⟩ := run_calls hrun
  refine ⟨(map_credit _).trans (batched_run hrun).once, fun key => ?_, ?_, fun m habsent => remainingMetaTurn_absent habsent⟩
  · rw [count_credit]
    exact Nat.le_trans (Nat.le_add_right _ _) ((credited_run hrun).counts key)
  · intro before m entry updated after hsplit
    have htrace := run_trace (Credited sdk) (Owned sdk)
      (fun trace q m event q' hq hturn => ⟨hq.turn hturn, hq.owned hturn⟩) messages [] _ _ _ (credited_init sdk args)
      hturns _ _ _ hsplit
    rw [List.nil_append] at htrace
    exact htrace

/-- A packet is admitted and credited; the second message for its hash finds nothing. -/
theorem credited_once_repeated :
    ∃ (tx : ScoredTransaction ℚ) (entry : QoSTransactionMeta ℚ) (q : QosState sortedTree scoreHeap),
      run (call steadySdk ⟨16, 16, 1000⟩) (init steadySdk ⟨16, 16, 1000⟩)
        [.transactionPackets [signedPacket ⟨#v[1, 2, 3, 4]⟩ 0], .remainingMetas [⟨0, 250⟩, ⟨0, 250⟩]] =
        .ok ([[.packet (signedPacket ⟨#v[1, 2, 3, 4]⟩ 0) (.ok tx) {}],
          [.remainingMeta ⟨0, 250⟩ (some entry) none, .remainingMeta ⟨0, 250⟩ none none]], q) ∧
      q.completeMetas = [entry] ∧
      1 ≤ [Event.packet (signedPacket ⟨#v[1, 2, 3, 4]⟩ 0) (.ok tx) {}, .remainingMeta ⟨0, 250⟩ (some entry) none,
        .remainingMeta ⟨0, 250⟩ none none].countP (Event.admits steadySdk 0) ∧
      CreditOf steadySdk (signedPacket ⟨#v[1, 2, 3, 4]⟩ 0) ⟨0, 250⟩ entry ∧
      q.turn steadySdk ⟨16, 16, 1000⟩ (.remainingMeta ⟨0, 250⟩) = .ok (.remainingMeta ⟨0, 250⟩ none none, q) := by
  obtain ⟨tx, q₁, h₁, hready₁, hacc₁, -⟩ := first_packet (S := sortedTree) (F := ℚ) (H := scoreHeap) ⟨#v[1, 2, 3, 4]⟩
  obtain ⟨partialMeta, hstore, -, hput, -⟩ := hacc₁.stored_signed (by decide)
  have hlookup : q₁.partialMetas.lookup 0 = some partialMeta := by
    rw [hput]
    exact Lru.Cache.lookup_put_self _ _ _
  obtain ⟨q₂, h₂, hmetas₂, hcache₂⟩ := remainingMetaTurn_completes ⟨16, 16, 1000⟩ (m := ⟨0, 250⟩) hlookup
    (by rw [hacc₁.completeMetas]; decide)
  have habsent : q₂.partialMetas.contains 0 = false := by
    rw [Lru.Cache.contains_eq, hcache₂, Lru.Cache.lookup_pop, if_pos rfl]
    rfl
  have h₃ : q₂.remainingMetaTurn ⟨16, 16, 1000⟩ ⟨0, 250⟩ = .ok (.remainingMeta ⟨0, 250⟩ none none, q₂) :=
    remainingMetaTurn_absent habsent
  have hrun : run (call steadySdk ⟨16, 16, 1000⟩) (init steadySdk ⟨16, 16, 1000⟩ : QosState sortedTree scoreHeap)
      [.transactionPackets [signedPacket ⟨#v[1, 2, 3, 4]⟩ 0], .remainingMetas [⟨0, 250⟩, ⟨0, 250⟩]] =
      .ok ([[.packet (signedPacket ⟨#v[1, 2, 3, 4]⟩ 0) (.ok tx) {}],
        [.remainingMeta ⟨0, 250⟩ (some (completeEntry partialMeta ⟨0, 250⟩)) none,
          .remainingMeta ⟨0, 250⟩ none none]], q₂) := by
    simp only [run, call, consumeTransactionPackets, List.take_succ_cons, List.take_nil, h₁, consumeRemainingMetas, h₂,
      h₃, ok_bind]
    rfl
  obtain ⟨-, hcount, hown, hunknown⟩ := credited_once _ _ _ _ q₂ hrun
  obtain ⟨-, hfree⟩ := hown [_] _ _ _ _ rfl
  obtain ⟨-, hcredit⟩ := hfree (by
    intro event hevent event' hevent' packet packet' key habout habout' _ _
    cases List.mem_singleton.1 hevent
    cases List.mem_singleton.1 hevent'
    rw [← habout, ← habout'])
  refine ⟨tx, _, q₂, hrun, ?_, hcount 0, hcredit _ _ _ (List.mem_singleton.2 rfl) hstore.hash, hunknown _ habsent⟩
  rw [hmetas₂, hacc₁.completeMetas]
  rfl

end Exact

end QosState

end Qos
