import SolanaQos.LoopAccept
/-!
# Recently confirmed signatures

The recent-signature cache only ever sees `put`, so it holds the latest distinct keys of the channel.  The events of a
run say what was consumed before each moment; `recentKeys` reads that set off them, and the two checks of the pipeline
are compared with it (`Suppresses`): at admission a packet with a recent key is rejected and one without is not for
that reason, and at dequeue a queued transaction is dropped if its key is recent by then and pushed if not.

The invariant `Recent` says that the cache stands for the recent keys, that queued transactions carry the key of their
packet, and that the producer got what the events say.  It is a relation between the history and the state, so the
theorem holds at every point of every run (`recentSignatures_suppressed`).  That the keys are those of the signatures
delivered is a separate conjunct: a call of the signature loop takes all it finds, and the other calls take no
signature (`call_confirmed`).

`mixed_run` has a packet of each kind, under the clock and the wire form of numbered packets:
* the first is queued, and dropped at dequeue, its signature having been confirmed meanwhile;
* the second is queued and pushed with the same batch;
* the third is rejected at admission;
* the fourth is queued and stays.
-/
namespace Qos

open Runs

section Traces

variable {F : Type}

def Event.confirmedKey : Event F → Option UInt64
  | .recentSignature signature => some (u64Key signature)
  | _ => none

def Message.confirmedKey : Message → Option UInt64
  | .recentSignature signature => some (u64Key signature)
  | _ => none

def Call.signatures : Call → List Signature
  | .recentSignatures pops => pops
  | _ => []

def Event.sent : Event F → List Packet
  | .packet _ _ batch => batch.sent.map ScoredTransaction.packet
  | _ => []

/-- The keys consumed from the recent-signature channel, newest first. -/
def consumedKeys (trace : List (Event F)) : List UInt64 := (trace.filterMap Event.confirmedKey).reverse

/-- **The `n` most recently consumed distinct keys.** -/
def recentKeys (n : Nat) (trace : List (Event F)) : List UInt64 := (Recency.latest (consumedKeys trace)).take n

theorem consumedKeys_append (trace : List (Event F)) (event : Event F) :
    consumedKeys (trace ++ [event]) = event.confirmedKey.toList ++ consumedKeys trace := by
  unfold consumedKeys
  rw [List.filterMap_append, List.reverse_append]
  cases event <;> rfl

theorem recentKeys_append {n : Nat} {trace : List (Event F)} {event : Event F} (h : event.confirmedKey = none) :
    recentKeys n (trace ++ [event]) = recentKeys n trace := by
  unfold recentKeys
  rw [consumedKeys_append, h]
  rfl

theorem flatMap_sent_append (trace : List (Event F)) (event : Event F) :
    (trace ++ [event]).flatMap Event.sent = trace.flatMap Event.sent ++ event.sent := by
  rw [List.flatMap_append, List.flatMap_singleton]

def FirstKey (sdk : Sdk) (packet : Packet) (key : UInt64) : Prop :=
  ∃ ipv4 view, Readable sdk packet ipv4 view ∧ u64Key view.firstSignature = key

/-- **What the two checks do with a packet**, `keys` being the recent keys at that moment. -/
def Suppresses (sdk : Sdk) (keys : List UInt64) : Event F → Prop
  | .packet packet result batch =>
    (∀ ipv4 view, Readable sdk packet ipv4 view →
      (result = .error .recentlyProcessed ↔ u64Key view.firstSignature ∈ keys)) ∧
    (∀ tx ∈ batch.sent, ∃ key, FirstKey sdk tx.packet key ∧ key ∉ keys) ∧
    ∀ tx ∈ batch.dropped, ∃ key, FirstKey sdk tx.packet key ∧ key ∈ keys
  | _ => True

end Traces

namespace QosState

variable {S : Sokoban} {F : Type} [LinearOrder F] {H : HeapCrate (ScoredTransaction F)}

/-- **The cache holds the recent keys**, queued transactions carry the key of their packet, and the producer got what the
events say. -/
structure Recent (sdk : Sdk) (trace : List (Event F)) (q : QosState S H) : Prop where
  keys : q.recentSignatures.view.entries.map Prod.fst = recentKeys cacheSize trace
  queued : ∀ tx ∈ q.container.priorityQueueHeap.items, FirstKey sdk tx.packet tx.sigKey
  pushed : ∃ txMut, q.container.transmitter = some txMut ∧ txMut.pushed = trace.flatMap Event.sent
  bounded : q.container.priorityQueueHeap.len < queueSize

theorem recent_init (sdk : Sdk) (args : Args) : (init sdk args : QosState S H).Recent sdk [] where
  keys := by
    show (Lru.Cache.new _ : Lru.Cache UInt64 Unit cacheSize).view.entries.map Prod.fst = recentKeys cacheSize _
    rw [Lru.Cache.view_new]
    rfl
  queued := fun tx htx => by
    rw [show (init sdk args : QosState S H).container.priorityQueueHeap.items = 0 from MinMaxHeap.items_new] at htx
    exact absurd htx (Multiset.notMem_zero tx)
  pushed := ⟨{}, rfl, rfl⟩
  bounded := by
    show (MinMaxHeap.new : MinMaxHeap H queueSize).len < queueSize
    rw [MinMaxHeap.len_new]
    decide

theorem Recent.contains_iff {sdk : Sdk} {trace : List (Event F)} {q : QosState S H} (h : q.Recent sdk trace)
    (key : UInt64) : q.recentSignatures.contains key = true ↔ key ∈ recentKeys cacheSize trace := by
  rw [Lru.Cache.contains_view, Recency.RecencyList.contains_iff, h.keys]

variable [Zero F] [One F] [Add F] [Sub F] [Mul F] [Div F] [NatCast F] [OfScientific F]

omit [Zero F] [One F] [Add F] [Sub F] [Div F] [NatCast F] in
theorem Recent.packetTurn {sdk : Sdk} {trace : List (Event F)} {q q' : QosState S H} {packet : Packet}
    {event : Event F} (h : q.Recent sdk trace) (hturn : PacketTurn sdk q packet event q') :
    q'.Recent sdk (trace ++ [event]) ∧ Suppresses sdk (recentKeys cacheSize trace) event := by
  obtain ⟨txMut, htx, hpushed⟩ := h.pushed
  have hseen : ∀ key, seenRecently (some q.recentSignatures) key = true ↔ key ∈ recentKeys cacheSize trace :=
    fun key => by simpa [seenRecently] using h.contains_iff key
  cases hturn with
  | rejected r e hout hresult =>
    refine ⟨⟨?_, h.queued, ⟨txMut, htx, ?_⟩, h.bounded⟩, ?_, by simp, by simp⟩
    · rw [recentKeys_append rfl]
      exact h.keys
    · rw [flatMap_sent_append]
      simpa [Event.sent] using hpushed
    · intro ipv4 view hread
      rw [← hresult, hout.recentlyProcessed_iff hread, hseen]
  | queued r tx zeroScore reads queued sent stats stats' batch hout hresult hqueue htransmit =>
    obtain ⟨evicted, txMut', hitems, hlt, htx', hpushed', hfresh, hdropped, -⟩ :=
      queue_maybeTransmit h.bounded htx hqueue htransmit
    have hfirst : FirstKey sdk tx.packet tx.sigKey := by
      cases hout with
      | admitted ipv4 view key partialMeta score hread =>
        cases hresult
        exact ⟨ipv4, view, hread, rfl⟩
      | _ => cases hresult
    -- everything the turn touched was queued before or is the new transaction
    have hparts : ∀ tx', tx' ∈ batch.sent ∨ tx' ∈ batch.dropped ∨ tx' ∈ sent.priorityQueueHeap.items →
        FirstKey sdk tx'.packet tx'.sigKey := by
      intro tx' htx'
      have hmem : tx' ∈ tx ::ₘ q.container.priorityQueueHeap.items := by
        rw [hitems, Multiset.mem_add, Multiset.mem_add, Multiset.mem_add, Multiset.mem_coe, Multiset.mem_coe]
        exact Or.inl (or_assoc.2 htx')
      rcases Multiset.mem_cons.1 hmem with rfl | hmem
      · exact hfirst
      · exact h.queued tx' hmem
    refine ⟨⟨?_, fun tx' htx' => hparts tx' (Or.inr (Or.inr htx')), ⟨txMut', htx', ?_⟩, hlt⟩, ?_, ?_, ?_⟩
    · rw [recentKeys_append rfl]
      exact h.keys
    · rw [flatMap_sent_append, hpushed', hpushed]
      rfl
    · intro ipv4 view hread
      rw [← hresult, hout.recentlyProcessed_iff hread, hseen]
    · intro tx' htx'
      refine ⟨tx'.sigKey, hparts tx' (Or.inl htx'), fun hmem => ?_⟩
      rw [← h.contains_iff, hfresh tx' htx'] at hmem
      cases hmem
    · intro tx' htx'
      exact ⟨tx'.sigKey, hparts tx' (Or.inr (Or.inl htx')), (h.contains_iff _).1 (hdropped tx' htx')⟩

omit [Zero F] [One F] [Add F] [Sub F] [Mul F] [Div F] [NatCast F] [OfScientific F] in
theorem Recent.quiet {sdk : Sdk} {trace : List (Event F)} {q q' : QosState S H} {event : Event F}
    (h : q.Recent sdk trace) (hsignatures : q'.recentSignatures = q.recentSignatures)
    (hcontainer : q'.container = q.container) (hkey : event.confirmedKey = none) (hsent : event.sent = []) :
    q'.Recent sdk (trace ++ [event]) where
  keys := by
    rw [hsignatures, recentKeys_append hkey]
    exact h.keys
  queued := by
    rw [hcontainer]
    exact h.queued
  pushed := by
    rw [hcontainer, flatMap_sent_append, hsent, List.append_nil]
    exact h.pushed
  bounded := by
    rw [hcontainer]
    exact h.bounded

theorem Recent.turn {sdk : Sdk} {args : Args} {trace : List (Event F)} {q q' : QosState S H} {message : Message}
    {event : Event F} (h : q.Recent sdk trace) (hturn : q.turn sdk args message = .ok (event, q')) :
    q'.Recent sdk (trace ++ [event]) ∧ Suppresses sdk (recentKeys cacheSize trace) event := by
  cases turn_cases hturn with
  | packet hturn => exact h.packetTurn hturn
  | recentSignature signature =>
    refine ⟨⟨?_, h.queued, ?_, h.bounded⟩, trivial⟩
    · show (q.recentSignatures.put (u64Key signature) ()).2.view.entries.map Prod.fst = _
      rw [(q.recentSignatures.put_view _ _).2, recentKeys, consumedKeys_append]
      exact Recency.RecencyList.put_keys h.keys _ _
    · rw [flatMap_sent_append]
      simpa [Event.sent, recentSignatureTurn] using h.pushed
  | remainingMeta hturn =>
    cases hturn with
    | absent habsent => exact ⟨h.quiet rfl rfl rfl rfl, trivial⟩
    | completed partialMeta hlookup hlen => exact ⟨h.quiet rfl rfl rfl rfl, trivial⟩
    | updated partialMeta model hlookup hlen hmodel => exact ⟨h.quiet rfl rfl rfl rfl, trivial⟩
  | sigverifyFailed model hmodel => exact ⟨h.quiet rfl rfl rfl rfl, trivial⟩

theorem call_confirmed {sdk : Sdk} {args : Args} {q q' : QosState S H} {c : Call} {events : List (Event F)}
    (h : q.call sdk args c = .ok (events, q')) :
    events.filterMap Event.confirmedKey = c.signatures.map u64Key := by
  have hmessages : ∀ {es : List (Event F)}, es.filterMap Event.confirmedKey =
      (es.map Event.message).filterMap Message.confirmedKey := by
    intro es
    rw [List.filterMap_map]
    exact List.filterMap_congr fun event _ => by cases event <;> rfl
  have hfront := ((call_messages h).sublist.filterMap Message.confirmedKey)
  rw [← hmessages] at hfront
  cases c with
  | recentSignatures pops =>
    have hall := run_forall₂ (P := fun signature event => Event.recentSignature signature = event)
      (fun q signature event q' hturn => by cases hturn; rfl) h
    rw [← List.forall₂_map_left_iff (R := (· = ·)), List.forall₂_eq_eq_eq] at hall
    rw [← hall, List.filterMap_map]
    exact congrFun (List.filterMap_eq_map (f := u64Key)) pops
  | _ =>
    simpa [Call.messages, Call.signatures, List.filterMap_map, Function.comp_def, Message.confirmedKey] using hfront

/-- **Recently confirmed signatures are suppressed exactly.**  The signatures consumed are those of the calls, call by
call.  At every packet of every run, with the 1024 * 1024 most recently consumed distinct keys of that moment: the packet
is rejected as recently processed iff its key is one of them, what the turn pushes has its key outside, what it drops has
its key inside; and the producer got exactly what the events say was sent. -/
theorem recentSignatures_suppressed (sdk : Sdk) (args : Args) (calls : List Call) (events : List (List (Event F)))
    (q : QosState S H) (hrun : run (call sdk args) (init sdk args) calls = .ok (events, q)) :
    (∃ txMut, q.container.transmitter = some txMut ∧ txMut.pushed = events.flatten.flatMap Event.sent) ∧
      List.Forall₂ (fun c es => es.filterMap Event.confirmedKey = c.signatures.map u64Key) calls events ∧
      ∀ before packet result batch after, events.flatten = before ++ Event.packet packet result batch :: after →
        Suppresses sdk (recentKeys (1024 * 1024) before) (.packet packet result batch) := by
  obtain ⟨messages, hturns⟩ := run_calls hrun
  have hhist := run_hist (Recent sdk) (fun trace q m event q' hq hturn => (hq.turn hturn).1) messages [] _ _ _
    (recent_init sdk args) hturns
  refine ⟨by simpa using hhist.pushed, run_forall₂ (fun q c es q' hcall => ?_) hrun,
    fun before packet result batch after hsplit => ?_⟩
  · exact call_confirmed hcall
  have htrace := run_trace (Recent sdk) (fun trace event => Suppresses sdk (recentKeys cacheSize trace) event)
    (fun trace q m event q' hq hturn => hq.turn hturn) messages [] _ _ _ (recent_init sdk args) hturns _ _ _ hsplit
  rw [List.nil_append] at htrace
  exact htrace

/-- The channels of `mixed_run`: a packet, its signature and that of the packet after next, and three more packets. -/
def mixedCalls (a : Ipv4Addr) : List Call :=
  [.transactionPackets [signedPacket a 0], .recentSignatures [signatureOf 0, signatureOf 2],
    .transactionPackets [signedPacket a 1, signedPacket a 2, signedPacket a 3]]

def mixedEvents (a : Ipv4Addr) (tx₀ tx₁ tx₃ : ScoredTransaction F) : List (List (Event F)) :=
  [[.packet (signedPacket a 0) (.ok tx₀) {}],
    [.recentSignature (signatureOf 0), .recentSignature (signatureOf 2)],
    [.packet (signedPacket a 1) (.ok tx₁) ⟨[tx₁], [tx₀]⟩,
      .packet (signedPacket a 2) (.error .recentlyProcessed) {}, .packet (signedPacket a 3) (.ok tx₃) {}]]

omit [LinearOrder F] [Zero F] [One F] [Add F] [Sub F] [Mul F] [Div F] [NatCast F] [OfScientific F] in
theorem recentKeys_mixed {event : Event F} (h : event.confirmedKey = none) :
    recentKeys (1024 * 1024) [event, .recentSignature (signatureOf 0), .recentSignature (signatureOf 2)] = [2, 0] := by
  unfold recentKeys consumedKeys
  rw [List.filterMap_cons_none h]
  show (Recency.latest [u64Key (signatureOf 2), u64Key (signatureOf 0)]).take (1024 * 1024) = [2, 0]
  decide

theorem confirm_two {sdk : Sdk} {q : QosState S H} {trace : List (Event F)} (hready : q.Ready) (h : q.Recent sdk trace)
    (signature signature' : Signature) : ∃ q',
      q.consumeRecentSignatures [signature, signature'] =
        .ok ([.recentSignature signature, .recentSignature signature'], q') ∧
      q'.Ready ∧ q'.Recent sdk (trace ++ [.recentSignature signature, .recentSignature signature']) ∧
      q'.container = q.container ∧ q'.reads = q.reads ∧ q'.partialMetas = q.partialMetas ∧
      q'.stats = { q.stats with recentSignaturesReceived := q.stats.recentSignaturesReceived + 1 + 1 } := by
  have hone : ∀ {q : QosState S H} {trace : List (Event F)} (signature : Signature), q.Recent sdk trace →
      (q.recentSignatureTurn signature).2.Recent sdk (trace ++ [.recentSignature signature]) := by
    intro q trace signature hq
    have hturn : q.turn sdk ⟨16, 16, 1000⟩ (.recentSignature signature) =
        .ok (.recentSignature signature, (q.recentSignatureTurn signature).2) := rfl
    exact (hq.turn hturn).1
  have htwo := hone signature' (hone signature h)
  rw [List.append_assoc] at htwo
  exact ⟨_, rfl, ⟨hready.model, hready.transmitter, hready.bounded⟩, htwo, rfl, rfl, rfl, rfl⟩

/-- **A packet of each kind**: the first is queued and dropped, the second is sent, the third is rejected, and the fourth
is still queued. -/
theorem mixed_run (a : Ipv4Addr) : ∃ tx₀ tx₁ tx₃ q,
    run (call steadySdk ⟨16, 16, 1000⟩) (init steadySdk ⟨16, 16, 1000⟩ : QosState S H) (mixedCalls a) =
      .ok (mixedEvents a tx₀ tx₁ tx₃, q) ∧
      tx₁.packet = signedPacket a 1 ∧ q.container.priorityQueueHeap.len = 1 ∧ q.stats.recentlyProcessed = 1 ∧
      q.stats.recentlyProcessedQueued = 1 ∧ q.stats.bankingTransmissions = 1 := by
  have hticks : steadySdk.ticksPerMs ≠ 0 := by decide
  -- the first packet, sixty milliseconds after the timer was set
  obtain ⟨tx₀, q₁, h₁, hready₁, hacc₁, hitems₁, hlast₁, hmax₁, hreads₁, z₁, hstats₁⟩ :=
    first_packet (S := S) (F := F) (H := H) a
  have hrecent₁ : q₁.Recent steadySdk [.packet (signedPacket a 0) (.ok tx₀) {}] :=
    ((recent_init _ _).packetTurn (packetTurn_cases h₁)).1
  obtain ⟨q₂, h₂, hready₂, hhist₂, hsame₂⟩ := confirm_two hready₁ hrecent₁ (signatureOf 0) (signatureOf 2)
  have hrecent₂ : ∀ key, q₂.recentSignatures.contains key = true ↔ key ∈ [(2 : UInt64), 0] := by
    intro key
    rw [hhist₂.contains_iff]
    exact iff_of_eq (congrArg (key ∈ ·) (recentKeys_mixed rfl))
  have hunseen : ∀ {key}, key ∉ [(2 : UInt64), 0] → q₂.recentSignatures.contains key = false := by
    intro key hkey
    rw [Bool.eq_false_iff]
    exact fun hseen => hkey ((hrecent₂ key).1 hseen)
  -- the second packet meets a timer that is due, a confirmed transaction in the queue and itself
  obtain ⟨-, -, -, -, hfree₁⟩ := hacc₁.stored_signed (by decide)
  obtain ⟨tx₁, batch, q₃, h₃, hready₃, hacc₃⟩ := hready₂.accept hticks (signedPacket_acceptable (i := 1) a (by decide)
    (hunseen (by decide)) (by rw [hsame₂.2.2.1]; exact hfree₁ _ (by decide) (Lru.Cache.lookup_new _ _)))
  have hlen₂ : q₂.container.priorityQueueHeap.len = 1 := by
    rw [MinMaxHeap.len_eq, hsame₂.1, hitems₁, Multiset.card_singleton]
  obtain ⟨hitems₃, hsent, hdropped, htimer, z₃, hstats₃⟩ := hacc₃.tick (by rw [hlen₂]; decide)
    (by rw [hlen₂, hsame₂.1, hmax₁]; decide) (by rw [hsame₂.1, hsame₂.2.1, hlast₁, hreads₁]; decide)
  have hseen₀ : q₂.recentSignatures.contains tx₀.sigKey = true := by
    rw [hacc₁.sigKey_signed, hrecent₂]
    decide
  obtain ⟨sent, dropped⟩ := batch
  rw [hsame₂.1, hitems₁] at hsent hdropped
  obtain rfl : sent = [tx₁] := by
    rw [← Multiset.coe_eq_singleton, hsent]
    simp [Multiset.filter_singleton, hacc₃.unseen, hseen₀]
  obtain rfl : dropped = [tx₀] := by
    rw [← Multiset.coe_eq_singleton, hdropped]
    simp [Multiset.filter_singleton, hacc₃.unseen, hseen₀]
  obtain ⟨hlast₃, hreads₃⟩ := htimer (List.cons_ne_nil _ _)
  -- the third is confirmed, the fourth early
  obtain ⟨view, hread, -, hfirst⟩ := signedPacket_readable a 2
  have hseen₂ : q₃.recentSignatures.contains (u64Key view.firstSignature) = true := by
    rw [hacc₃.recentSignatures, hrecent₂, hfirst]
    decide
  have h₄ := packetTurn_seen hread hseen₂
  obtain ⟨-, -, -, -, hfree₃⟩ := hacc₃.stored_signed (by decide)
  obtain ⟨q₄, hq₄⟩ : ∃ q₄ : QosState S H, q₄ = { q₃ with stats := { q₃.stats with
      totalPackets := q₃.stats.totalPackets + 1
      recentlyProcessed := q₃.stats.recentlyProcessed + 1 } } := ⟨_, rfl⟩
  rw [← hq₄] at h₄
  have hready₄ : q₄.Ready := by
    rw [hq₄]
    exact ⟨hready₃.model, hready₃.transmitter, hready₃.bounded⟩
  have hsame₄ : q₄.container = q₃.container ∧ q₄.reads = q₃.reads ∧ q₄.partialMetas = q₃.partialMetas ∧
      q₄.recentSignatures = q₂.recentSignatures := by
    rw [hq₄]
    exact ⟨rfl, rfl, rfl, hacc₃.recentSignatures⟩
  have hlen₄ : q₄.container.priorityQueueHeap.len = 0 := by
    rw [MinMaxHeap.len_eq, hsame₄.1, hitems₃, Multiset.card_zero]
  obtain ⟨tx₃, batch, q₅, h₅, -, hacc₅⟩ := hready₄.accept hticks (signedPacket_acceptable (i := 3) a (by decide)
    (by rw [hsame₄.2.2.2]; exact hunseen (by decide)) (by
      rw [hsame₄.2.2.1]
      refine hfree₃ _ (by decide) ?_
      rw [hsame₂.2.2.1]
      exact hfree₁ _ (by decide) (Lru.Cache.lookup_new _ _)))
  obtain ⟨rfl, hitems₅, -, -, -, z₅, hstats₅⟩ := hacc₅.early (by rw [hlen₄]; decide)
    (by rw [hsame₄.1, hsame₄.2.1, hlast₃, hreads₃, hsame₂.2.1, hreads₁]; decide)
  have hstats : q₅.stats = { q₅.stats with
      recentlyProcessed := 1
      recentlyProcessedQueued := 1
      bankingTransmissions := 1 } := by
    rw [hstats₅, hq₄, hstats₃, hsame₂.2.2.2, hstats₁]
    rfl
  refine ⟨tx₀, tx₁, tx₃, q₅, ?_, hacc₃.carries, ?_, by rw [hstats], by rw [hstats], by rw [hstats]⟩
  · simp only [run, call, mixedCalls, mixedEvents, consumeTransactionPackets, List.take_succ_cons, List.take_nil, h₁, h₂,
      h₃, h₄, h₅, ok_bind]
  · rw [MinMaxHeap.len_eq, hitems₅, Multiset.card_cons, ← MinMaxHeap.len_eq, hlen₄]

/-- The second packet is pushed and the first one dropped, with the keys of the first and the third confirmed. -/
theorem recentSignatures_suppressed_mixed :
    ∃ (tx₀ tx₁ tx₃ : ScoredTransaction ℚ) (q : QosState sortedTree scoreHeap) (txMut : Producer),
      run (call steadySdk ⟨16, 16, 1000⟩) (init steadySdk ⟨16, 16, 1000⟩) (mixedCalls ⟨#v[1, 2, 3, 4]⟩) =
        .ok (mixedEvents ⟨#v[1, 2, 3, 4]⟩ tx₀ tx₁ tx₃, q) ∧
      q.container.transmitter = some txMut ∧ txMut.pushed = [signedPacket ⟨#v[1, 2, 3, 4]⟩ 1] ∧
      List.Forall₂ (fun c es => es.filterMap Event.confirmedKey = c.signatures.map u64Key)
        (mixedCalls ⟨#v[1, 2, 3, 4]⟩) (mixedEvents ⟨#v[1, 2, 3, 4]⟩ tx₀ tx₁ tx₃) ∧
      Suppresses steadySdk [2, 0] (.packet (signedPacket ⟨#v[1, 2, 3, 4]⟩ 1) (.ok tx₁) ⟨[tx₁], [tx₀]⟩) ∧
      Suppresses steadySdk [2, 0]
        (.packet (signedPacket ⟨#v[1, 2, 3, 4]⟩ 2) (.error .recentlyProcessed) {} : Event ℚ) := by
  obtain ⟨tx₀, tx₁, tx₃, q, hrun, hcarries, -⟩ :=
    mixed_run (S := sortedTree) (F := ℚ) (H := scoreHeap) ⟨#v[1, 2, 3, 4]⟩
  obtain ⟨⟨txMut, htx, hpushed⟩, hsignatures, hsuppressed⟩ := recentSignatures_suppressed _ _ _ _ q hrun
  refine ⟨tx₀, tx₁, tx₃, q, txMut, hrun, htx, ?_, hsignatures, ?_, ?_⟩
  · rw [hpushed, ← hcarries]
    rfl
  · have h := hsuppressed [.packet (signedPacket ⟨#v[1, 2, 3, 4]⟩ 0) (.ok tx₀) {}, .recentSignature (signatureOf 0),
      .recentSignature (signatureOf 2)] _ _ _ _ rfl
    rwa [recentKeys_mixed rfl] at h
  · have h := hsuppressed [.packet (signedPacket ⟨#v[1, 2, 3, 4]⟩ 0) (.ok tx₀) {}, .recentSignature (signatureOf 0),
      .recentSignature (signatureOf 2), .packet (signedPacket ⟨#v[1, 2, 3, 4]⟩ 1) (.ok tx₁) ⟨[tx₁], [tx₀]⟩] _ _ _ _ rfl
    have hkeys : recentKeys (1024 * 1024) [Event.packet (signedPacket ⟨#v[1, 2, 3, 4]⟩ 0) (.ok tx₀) {},
        .recentSignature (signatureOf 0), .recentSignature (signatureOf 2),
        .packet (signedPacket ⟨#v[1, 2, 3, 4]⟩ 1) (.ok tx₁) ⟨[tx₁], [tx₀]⟩] = [2, 0] :=
      (@recentKeys_append ℚ _ [_, _, _] _ rfl).trans (recentKeys_mixed rfl)
    rwa [hkeys] at h

end QosState

end Qos
