import SolanaQos.BankingOrder
import SolanaQos.LoopTotal
/-!
# What is accepted

`try_process_packet` accepts a packet that is readable, was not confirmed lately, has a fee payer and is not stored yet
(`Acceptable`); acceptance depends on nothing else, and a rejection leaves alone what it depends on
(`Outcome.acceptable`, `Outcome.stored_hashes`).  `Accepted` is the whole turn of such a packet: what its transaction
carries, what reaches the partial meta cache, and the two calls made on the queue.  Where the queue has a place free,
the clock decides between two ends:
- before the interval has passed, the transaction joins the queue and nothing else moves (`Accepted.early`);
- after it, and under a limit above what is queued, the queue is emptied, and what it held is sent or dropped by
  whether it was confirmed meanwhile (`Accepted.tick`).

A readable packet whose signature was confirmed is counted and forgotten (`packetTurn_seen`).

The second part is a wire form for numbered packets, and a reader for it: the payload holds one signature, whose front
is the number, and one account; the reader takes exactly these, the hash reads the number back, and the clock advances
60 ms at each reading (`steadySdk`).  Numbered packets do not collide (`hashKey_inj`).  `filled_run` processes any
number of them from one sender, each of which is accepted and leaves its partial meta in the cache (`Filled`); the
concrete runs of the modules behind this one start from it.
-/
namespace Qos

open Runs Recency

section Calls

variable {S : Sokoban} {F : Type} [LinearOrder F] {signers ips cacheSize sigCacheSize : Nat}
variable {sdk : Sdk} {packet : Packet} {recentSignatures : Option (Lru.Cache UInt64 Unit sigCacheSize)}
  {model : IpSignerModel S F signers ips} {partialMetas : Lru.Cache UInt64 QoSPartialMeta cacheSize} {stats : Stats}
  {r : Processed S F signers ips cacheSize}

/-- **What is accepted**: a readable packet whose signature is not recent, with a fee payer and a hash that is not
stored. -/
def Acceptable (sdk : Sdk) (recentSignatures : Option (Lru.Cache UInt64 Unit sigCacheSize))
    (partialMetas : Lru.Cache UInt64 QoSPartialMeta cacheSize) (packet : Packet) : Prop :=
  ∃ ipv4 view feePayer key, Readable sdk packet ipv4 view ∧
    seenRecently recentSignatures (u64Key view.firstSignature) = false ∧ view.feePayer = some feePayer ∧
    packetHash sdk packet = .ok key ∧ partialMetas.lookup key = none

variable [One F] [Mul F] [Div F] [NatCast F] [OfScientific F]

theorem tryProcessPacket_readable {ipv4 : Ipv4Addr} {view : TransactionView} (h : Readable sdk packet ipv4 view) :
    tryProcessPacket sdk packet recentSignatures model partialMetas stats =
      processTransaction sdk packet ipv4 view recentSignatures model partialMetas
        { stats with totalPackets := stats.totalPackets + 1 } := by
  obtain ⟨bytes, hdata, hview⟩ := Option.bind_eq_some_iff.1 h.view
  obtain ⟨unsanitized, hparse, hsanitize⟩ := Option.bind_eq_some_iff.1 hview
  unfold tryProcessPacket
  simp only [h.addr, hdata, hparse, hsanitize, Option.map_some]
  exact if_neg (not_lt.2 h.size)

/-- **A readable packet with an unseen signature and a fee payer reaches the `put`**, which decides. -/
theorem result_of_readable {ipv4 : Ipv4Addr} {view : TransactionView} {feePayer : Pubkey} {key : UInt64}
    (hread : Readable sdk packet ipv4 view)
    (hseen : seenRecently recentSignatures (u64Key view.firstSignature) = false) (hpayer : view.feePayer = some feePayer)
    (hkey : packetHash sdk packet = .ok key)
    (hr : tryProcessPacket sdk packet recentSignatures model partialMetas stats = .ok r) :
    if (partialMetas.lookup key).isSome = true then r.result = .error .duplicatePacket else ∃ tx, r.result = .ok tx := by
  obtain ⟨fee, hfee⟩ := totalFee_total sdk view
  have hdup := partialMetas.put_duplicate_iff key (QoSPartialMeta.new ipv4 feePayer fee.totalFee fee.requestedCus)
  rw [tryProcessPacket_readable hread] at hr
  unfold processTransaction at hr
  simp only [hseen, hpayer, hfee, hkey, ok_bind] at hr
  rw [if_neg Bool.false_ne_true] at hr
  split at hr
  · rename_i after hput
    rw [hput] at hdup
    rw [if_pos (hdup.1 rfl)]
    cases hr
    rfl
  · rename_i after hnone hput
    rw [hput] at hdup
    rw [if_neg fun hstored => hnone (congrArg Prod.fst (hdup.2 hstored)) (congrArg Prod.snd (hdup.2 hstored))]
    cases hr
    exact ⟨_, rfl⟩

theorem Acceptable.processed (h : Acceptable sdk recentSignatures partialMetas packet)
    (hr : tryProcessPacket sdk packet recentSignatures model partialMetas stats = .ok r) : ∃ tx, r.result = .ok tx := by
  obtain ⟨ipv4, view, feePayer, key, hread, hseen, hpayer, hkey, habsent⟩ := h
  have hresult := result_of_readable hread hseen hpayer hkey hr
  rwa [habsent, if_neg (by simp)] at hresult

omit [One F] [Div F] [NatCast F] in
theorem Outcome.acceptable (h : Outcome sdk packet recentSignatures model partialMetas stats r)
    {tx : ScoredTransaction F} (htx : r.result = .ok tx) :
    Acceptable sdk recentSignatures partialMetas packet ∧ seenRecently recentSignatures tx.sigKey = false := by
  cases h with
  | admitted ipv4 view key partialMeta score hread hseen hstore hput =>
    cases htx
    rw [Lru.Cache.put_fresh_iff] at hput
    obtain ⟨ipv4', view', feePayer, fee, hread', hpayer, -⟩ := hstore.readable
    have hview : view' = view := Option.some.inj (hread'.view.symm.trans hread.view)
    exact ⟨⟨ipv4, view, feePayer, key, hread, hseen, hview ▸ hpayer, hstore.hash, hput⟩, hseen⟩
  | _ => cases htx

omit [One F] [Div F] [NatCast F] in
theorem Outcome.stored_hashes (h : Outcome sdk packet recentSignatures model partialMetas stats r)
    {e : PacketProcessorError} (he : r.result = .error e) (key : UInt64) :
    r.partialMetas.lookup key = none ↔ partialMetas.lookup key = none := by
  rcases h.cache_cases with ⟨hcache, -⟩ | ⟨key', partialMeta, -, hcache, ⟨-, hdup⟩ | ⟨⟨tx, hok⟩, -⟩⟩
  · rw [hcache]
  · obtain ⟨stored, hstored⟩ := Option.isSome_iff_exists.1 hdup
    rw [hcache, Lru.Cache.lookup_put_present partialMeta hstored]
    by_cases hk : key = key'
    · rw [if_pos hk, hk, hstored]
      exact iff_of_false nofun nofun
    · rw [if_neg hk]
  · rw [he] at hok
    cases hok

end Calls

namespace QosState

variable {S : Sokoban} {F : Type} [LinearOrder F] {H : HeapCrate (ScoredTransaction F)}

/-- **The turn of an accepted packet.** -/
structure Accepted (sdk : Sdk) (q : QosState S H) (packet : Packet) (tx : ScoredTransaction F) (batch : Batch F)
    (q' : QosState S H) : Prop where
  carries : tx.packet = packet
  sigKey : ∃ ipv4 view, Readable sdk packet ipv4 view ∧ tx.sigKey = u64Key view.firstSignature
  unseen : q.recentSignatures.contains tx.sigKey = false
  model : q'.model = q.model
  recentSignatures : q'.recentSignatures = q.recentSignatures
  completeMetas : q'.completeMetas = q.completeMetas
  stored : ∃ key partialMeta, Storable sdk packet key partialMeta ∧ q.partialMetas.lookup key = none ∧
    q'.partialMetas = (q.partialMetas.put key partialMeta).2
  -- queued, and the transmitter given its turn
  calls : ∃ zeroScore queued stats, q.container.queue tx { q.stats with
        totalPackets := q.stats.totalPackets + 1
        zeroScore := zeroScore } = .ok (queued, stats) ∧
      queued.maybeTransmit sdk stats q.recentSignatures q.reads = .ok (batch, q'.container, q'.stats, q'.reads)

section Turns

variable [Zero F] [One F] [Mul F] [Div F] [NatCast F] [OfScientific F]

theorem queued_of_acceptable {sdk : Sdk} {q q' : QosState S H} {packet : Packet} {event : Event F}
    (h : q.packetTurn sdk packet = .ok (event, q'))
    (hacc : Acceptable sdk (some q.recentSignatures) q.partialMetas packet) :
    ∃ tx batch, event = .packet packet (.ok tx) batch := by
  obtain ⟨r, hr, hrest⟩ := bind_eq_ok h
  obtain ⟨tx, htx⟩ := hacc.processed hr
  have hout := packetTurn_cases h
  cases hout with
  | rejected r' e hout' hresult =>
    simp only [htx] at hrest
    obtain ⟨⟨queued, stats⟩, -, hrest⟩ := bind_eq_ok hrest
    obtain ⟨⟨batch, sent, stats', reads⟩, -, hrest⟩ := bind_eq_ok hrest
    cases hrest
  | queued r' tx' zeroScore reads queued sent stats stats' batch => exact ⟨tx', batch, rfl⟩

/-- **An acceptable packet is accepted**, with what its turn leaves to later turns. -/
theorem Ready.accept {sdk : Sdk} (hticks : sdk.ticksPerMs ≠ 0) {q : QosState S H} (h : q.Ready) {packet : Packet}
    (hacc : Acceptable sdk (some q.recentSignatures) q.partialMetas packet) :
    ∃ tx batch q', q.packetTurn sdk packet = .ok (.packet packet (.ok tx) batch, q') ∧ q'.Ready ∧
      Accepted sdk q packet tx batch q' := by
  obtain ⟨event, q', hturn, hready⟩ := h.packetTurn hticks packet
  obtain ⟨tx, batch, rfl⟩ := queued_of_acceptable hturn hacc
  refine ⟨tx, batch, q', hturn, hready, ?_⟩
  cases packetTurn_cases hturn with
  | queued r tx zeroScore reads queued sent stats stats' batch hout hresult hqueue htransmit =>
    cases hout with
    | admitted ipv4 view key partialMeta score hread hseen hstore hput =>
      cases hresult
      rw [Lru.Cache.put_fresh_iff] at hput
      exact ⟨rfl, ⟨ipv4, view, hread, rfl⟩, by simpa [seenRecently] using hseen, rfl, rfl, rfl,
        ⟨key, partialMeta, hstore, hput, rfl⟩, zeroScore, queued, stats, hqueue, htransmit⟩
    | _ => cases hresult

theorem packetTurn_seen {sdk : Sdk} {q : QosState S H} {packet : Packet} {ipv4 : Ipv4Addr} {view : TransactionView}
    (hread : Readable sdk packet ipv4 view) (hseen : q.recentSignatures.contains (u64Key view.firstSignature) = true) :
    q.packetTurn sdk packet = .ok (.packet packet (.error .recentlyProcessed) {}, { q with
      stats := { q.stats with
        totalPackets := q.stats.totalPackets + 1
        recentlyProcessed := q.stats.recentlyProcessed + 1 } }) := by
  unfold packetTurn
  rw [tryProcessPacket_readable hread]
  unfold processTransaction
  simp only [seenRecently, Option.any_some, hseen, if_true, ok_bind]
  rfl

end Turns

section Clock

variable {sdk : Sdk} {q q' : QosState S H} {packet : Packet} {tx : ScoredTransaction F} {batch : Batch F}

theorem Accepted.early (h : Accepted sdk q packet tx batch q')
    (hroom : q.container.priorityQueueHeap.len + 1 < queueSize)
    (hearly : (sdk.tsc q.reads - q.container.lastSend) / sdk.ticksPerMs < TransactionContainer.sendIntervalMs) :
    batch = {} ∧ q'.container.priorityQueueHeap.items = tx ::ₘ q.container.priorityQueueHeap.items ∧
      q'.container.lastSend = q.container.lastSend ∧ q'.container.maxSend = q.container.maxSend ∧
      q'.reads = q.reads + 1 ∧
      ∃ zeroScore, q'.stats = { q.stats with totalPackets := q.stats.totalPackets + 1, zeroScore := zeroScore } := by
  obtain ⟨zeroScore, queued, stats, hqueue, htransmit⟩ := h.calls
  obtain ⟨hitems, rfl⟩ := queue_holds hroom hqueue
  obtain ⟨hlast, hmax⟩ := queue_frame hqueue
  obtain ⟨txMut, -, -, hturn⟩ := maybeTransmit_cases htransmit
  generalize q'.container = c', q'.stats = stats', q'.reads = reads' at *
  cases hturn with
  | early => exact ⟨rfl, hitems, hlast, hmax, rfl, zeroScore, rfl⟩
  | tick batch heap stats₁ txMut₁ lastSend reads' htick =>
    rw [hlast] at htick
    exact absurd htick (UInt64.not_le.2 hearly)

theorem Accepted.tick (h : Accepted sdk q packet tx batch q')
    (hroom : q.container.priorityQueueHeap.len + 1 < queueSize)
    (hlimit : q.container.priorityQueueHeap.len + 1 < q.container.maxSend.toNat)
    (htick : TransactionContainer.sendIntervalMs ≤ (sdk.tsc q.reads - q.container.lastSend) / sdk.ticksPerMs) :
    q'.container.priorityQueueHeap.items = 0 ∧
      (batch.sent : Multiset (ScoredTransaction F)) = (tx ::ₘ q.container.priorityQueueHeap.items).filter
        (fun tx => q.recentSignatures.contains tx.sigKey = false) ∧
      (batch.dropped : Multiset (ScoredTransaction F)) = (tx ::ₘ q.container.priorityQueueHeap.items).filter
        (fun tx => q.recentSignatures.contains tx.sigKey = true) ∧
      (batch.sent ≠ [] → q'.container.lastSend = sdk.tsc (q.reads + 1) ∧ q'.reads = q.reads + 2) ∧
      ∃ zeroScore, q'.stats = { q.stats with
        totalPackets := q.stats.totalPackets + 1
        zeroScore := zeroScore
        recentlyProcessedQueued := q.stats.recentlyProcessedQueued + batch.dropped.length
        bankingTransmissions := q.stats.bankingTransmissions + batch.sent.length } := by
  obtain ⟨zeroScore, queued, stats, hqueue, htransmit⟩ := h.calls
  obtain ⟨hitems, rfl⟩ := queue_holds hroom hqueue
  obtain ⟨hlast, hmax⟩ := queue_frame hqueue
  obtain ⟨txMut, -, -, hturn⟩ := maybeTransmit_cases htransmit
  generalize q'.container = c', q'.stats = stats', q'.reads = reads' at *
  cases hturn with
  | early hearly =>
    rw [hlast] at hearly
    exact absurd htick (UInt64.not_le.2 hearly)
  | tick batch heap stats₁ txMut₁ lastSend reads' htick hsend htimer =>
    obtain ⟨hsplit, hfresh, hseen, hstats, -⟩ := sendBatch_spec q.recentSignatures _ _ _ _ _ _ _ _ hsend
    obtain ⟨-, -, -, -, hshort⟩ := sendBatch_order q.recentSignatures _ _ _ _ _ _ _ _ hsend
    have hcard := congrArg Multiset.card hsplit
    rw [hitems, Multiset.card_cons, Multiset.card_add, Multiset.card_add, Multiset.coe_card, ← MinMaxHeap.len_eq] at hcard
    have hempty : heap.items = 0 := hshort (by rw [hmax]; omega)
    rw [hitems, hempty, Multiset.add_zero] at hsplit
    refine ⟨hempty, ?_, ?_, ?_, zeroScore, by rw [hstats]⟩
    · rw [hsplit, Multiset.filter_add, filter_coe_eq_self hfresh, Multiset.filter_eq_nil.2, Multiset.add_zero]
      intro x hx
      rw [hseen x (Multiset.mem_coe.1 hx)]
      decide
    · rw [hsplit, Multiset.filter_add, filter_coe_eq_self hseen, Multiset.filter_eq_nil.2, Multiset.zero_add]
      intro x hx
      rw [hfresh x (Multiset.mem_coe.1 hx)]
      decide
    · intro hne
      rcases htimer with ⟨-, hlast', hreads⟩ | ⟨hnil, -, -⟩
      · exact ⟨hlast', hreads⟩
      · exact absurd hnil hne

end Clock

end QosState

/-! ## A wire form and its reader -/

theorem signature_size (i : Nat) :
    (UInt8.ofNat i :: UInt8.ofNat (i / 256) :: List.replicate 62 0).toArray.size = 64 := by
  rw [List.size_toArray, List.length_cons, List.length_cons, List.length_replicate]

def signatureOf (i : Nat) : Signature :=
  ⟨(UInt8.ofNat i :: UInt8.ofNat (i / 256) :: List.replicate 62 0).toArray, signature_size i⟩

/-- The wire form of a transaction with one signature, one account and no instruction. -/
def signedBytes (i : Nat) : List UInt8 :=
  [1] ++ (UInt8.ofNat i :: UInt8.ofNat (i / 256) :: List.replicate 62 0) ++ [1, 0, 0, 1] ++ List.replicate 32 9 ++
    List.replicate 32 0 ++ [0]

def oneSignerView (bytes : List UInt8) : Option TransactionView :=
  if h : bytes.length = 134 ∧ bytes.take 1 = [1] ∧ (bytes.drop 65).take 4 = [1, 0, 0, 1] ∧ bytes.drop 133 = [0] then
    some ⟨[⟨((bytes.drop 1).take 64).toArray, by simp [h.1]⟩], [⟨⟨((bytes.drop 69).take 32).toArray, by simp [h.1]⟩⟩], [],
      Nat.one_pos⟩
  else none

/-- The hash reads the front of the signature, and 60 ms pass from one reading of the clock to the next. -/
def steadySdk : Sdk where
  Unsanitized := TransactionView
  data := undiscarded
  tryNewUnsanitized := oneSignerView
  sanitize := some
  computeBudgetId := ⟨Vector.replicate 32 3⟩
  hash := fun bytes => UInt64.ofNat (leNat ((bytes.drop 1).take 8))
  ticksPerMs := 1
  tsc := fun n => UInt64.ofNat (60 * n)
  data_eq := fun _ _ => undiscarded_eq

theorem steadySdk_view {packet : Packet} {bytes : List UInt8} (h : undiscarded packet = some bytes) :
    steadySdk.view packet = oneSignerView bytes := by
  show (undiscarded packet).bind (fun bytes => (oneSignerView bytes).bind some) = _
  rw [h, Option.bind_some, Option.bind_fun_some]

theorem signedBytes_size (i : Nat) : (signedBytes i ++ List.replicate 1098 0).toArray.size = packetDataSize := by
  have hlen : (signedBytes i).length = 134 := rfl
  rw [List.size_toArray, List.length_append, List.length_replicate, hlen]
  rfl

def signedPacket (a : Ipv4Addr) (i : Nat) : Packet :=
  ⟨⟨(signedBytes i ++ List.replicate 1098 0).toArray, signedBytes_size i⟩, ⟨134, .v4 a, 8001, 0⟩⟩

theorem signedPacket_payload (a : Ipv4Addr) (i : Nat) :
    (signedPacket a i).buffer.toList.take (signedPacket a i).metadata.size.toNat = signedBytes i := by
  show (signedBytes i ++ List.replicate 1098 0).take 134 = signedBytes i
  exact List.take_left' rfl

theorem signedPacket_readable (a : Ipv4Addr) (i : Nat) :
    ∃ view, Readable steadySdk (signedPacket a i) a view ∧ view.feePayer = some ⟨Vector.replicate 32 9⟩ ∧
      view.firstSignature = signatureOf i := by
  have hform : (signedBytes i).length = 134 ∧ (signedBytes i).take 1 = [1] ∧
      ((signedBytes i).drop 65).take 4 = [1, 0, 0, 1] ∧ (signedBytes i).drop 133 = [0] := ⟨rfl, rfl, rfl, rfl⟩
  have hflags : (signedPacket a i).metadata.flags &&& 1 = 0 := show (0 : UInt8) &&& 1 = 0 by decide
  have hdata : undiscarded (signedPacket a i) = some (signedBytes i) := by
    rw [undiscarded, if_pos hflags, signedPacket_payload]
  exact ⟨_, ⟨rfl, show 134 ≤ 1232 by decide, (steadySdk_view hdata).trans (dif_pos hform)⟩, rfl, rfl⟩

theorem packetHash_signedPacket (a : Ipv4Addr) {i : Nat} (hi : i < 65536) :
    packetHash steadySdk (signedPacket a i) = .ok (UInt64.ofNat i) := by
  obtain ⟨view, hread, -, -⟩ := signedPacket_readable a i
  rw [packetHash, preimage_eq hread.addr hread.size, signedPacket_payload]
  show Except.ok (UInt64.ofNat (leNat [UInt8.ofNat i, UInt8.ofNat (i / 256), 0, 0, 0, 0, 0, 0])) = _
  congr 2
  simp only [leNat, List.map_cons, List.map_nil, Nat.ofDigits_cons, Nat.ofDigits_nil, UInt8.toNat_ofNat']
  simp only [UInt8.toNat_zero]
  omega

theorem signedPacket_acceptable (a : Ipv4Addr) {i : Nat} (hi : i < 65536)
    {recentSignatures : Lru.Cache UInt64 Unit cacheSize} {partialMetas : Lru.Cache UInt64 QoSPartialMeta cacheSize}
    (hseen : recentSignatures.contains (u64Key (signatureOf i)) = false)
    (habsent : partialMetas.lookup (UInt64.ofNat i) = none) :
    Acceptable steadySdk (some recentSignatures) partialMetas (signedPacket a i) := by
  obtain ⟨view, hread, hpayer, hfirst⟩ := signedPacket_readable a i
  rw [← hfirst] at hseen
  exact ⟨a, view, _, _, hread, hseen, hpayer, packetHash_signedPacket a hi, habsent⟩

namespace QosState

theorem recentSignatures_init {S : Sokoban} {F : Type} [LinearOrder F] {H : HeapCrate (ScoredTransaction F)} {sdk : Sdk}
    {args : Args} (key : UInt64) : (init sdk args : QosState S H).recentSignatures.contains key = false := by
  rw [Lru.Cache.contains_eq]
  exact congrArg Option.isSome (Lru.Cache.lookup_new _ key)

variable {S : Sokoban} {F : Type} [LinearOrder F] {H : HeapCrate (ScoredTransaction F)} {a : Ipv4Addr} {i : Nat}
  {q q' : QosState S H} {tx : ScoredTransaction F} {batch : Batch F}

theorem Accepted.sigKey_signed (h : Accepted steadySdk q (signedPacket a i) tx batch q') :
    tx.sigKey = u64Key (signatureOf i) := by
  obtain ⟨ipv4, view, hread, hkey⟩ := h.sigKey
  obtain ⟨view', hread', -, hfirst⟩ := signedPacket_readable a i
  rw [hkey, ← hfirst, Option.some.inj (hread.view.symm.trans hread'.view)]

theorem Accepted.stored_signed (h : Accepted steadySdk q (signedPacket a i) tx batch q') (hi : i < 65536) :
    ∃ partialMeta, Storable steadySdk (signedPacket a i) (UInt64.ofNat i) partialMeta ∧
      q.partialMetas.lookup (UInt64.ofNat i) = none ∧
      q'.partialMetas = (q.partialMetas.put (UInt64.ofNat i) partialMeta).2 ∧
      ∀ key ≠ UInt64.ofNat i, q.partialMetas.lookup key = none → q'.partialMetas.lookup key = none := by
  obtain ⟨key, partialMeta, hstore, habsent, hput⟩ := h.stored
  obtain rfl : key = UInt64.ofNat i := Except.ok.inj (hstore.hash.symm.trans (packetHash_signedPacket a hi))
  refine ⟨partialMeta, hstore, habsent, hput, fun key hkey hnone => ?_⟩
  rw [hput, Option.eq_none_iff_forall_ne_some]
  intro w hw
  exact Option.some_ne_none w ((Lru.Cache.lookup_put_of_ne partialMeta hkey hw).symm.trans hnone)

/-- The first `k` packets are stored, and nothing else happened. -/
structure Filled (a : Ipv4Addr) (k : Nat) (q : QosState S H) : Prop where
  ready : q.Ready
  model : q.model = IpSignerModel.new [] []
  seen : ∀ key, q.recentSignatures.contains key = false
  completed : q.completeMetas = []
  size : q.partialMetas.view.entries.length = k
  stored : ∀ i < k, ∃ partialMeta, q.partialMetas.lookup (UInt64.ofNat i) = some partialMeta ∧
    partialMeta.ip = u32FromLeBytes a.octets
  free : ∀ i, k ≤ i → i < 65536 → q.partialMetas.lookup (UInt64.ofNat i) = none

theorem filled_init (a : Ipv4Addr) (args : Args) : (init steadySdk args : QosState S H).Filled a 0 where
  ready := ready_init steadySdk args
  model := rfl
  seen := recentSignatures_init
  completed := rfl
  size := by
    show (Lru.Cache.new _ : Lru.Cache UInt64 QoSPartialMeta cacheSize).view.entries.length = 0
    rw [Lru.Cache.view_new]
    rfl
  stored := fun i hi => absurd hi (Nat.not_lt_zero i)
  free := fun i _ _ => Lru.Cache.lookup_new _ _

theorem hashKey_inj {i j : Nat} (hi : i < 65536) (hj : j < 65536) :
    UInt64.ofNat i = UInt64.ofNat j ↔ i = j := by
  rw [← UInt64.toNat_inj, UInt64.toNat_ofNat', UInt64.toNat_ofNat', Nat.mod_eq_of_lt (by omega),
    Nat.mod_eq_of_lt (by omega)]

variable [Zero F] [One F] [Mul F] [Div F] [NatCast F] [OfScientific F]

theorem first_packet (a : Ipv4Addr) :
    ∃ tx q, (init steadySdk ⟨16, 16, 1000⟩ : QosState S H).packetTurn steadySdk (signedPacket a 0) =
        .ok (.packet (signedPacket a 0) (.ok tx) {}, q) ∧ q.Ready ∧
      Accepted steadySdk (init steadySdk ⟨16, 16, 1000⟩) (signedPacket a 0) tx {} q ∧
      q.container.priorityQueueHeap.items = {tx} ∧ q.container.lastSend = steadySdk.tsc 0 ∧
      q.container.maxSend = 100 ∧ q.reads = 2 ∧ ∃ zeroScore, q.stats = { totalPackets := 1, zeroScore := zeroScore } := by
  have hready : (init steadySdk ⟨16, 16, 1000⟩ : QosState S H).Ready := ready_init steadySdk _
  obtain ⟨tx, batch, q, hturn, hready', hacc⟩ := hready.accept (by decide)
    (signedPacket_acceptable (i := 0) a (by decide) (recentSignatures_init _) (Lru.Cache.lookup_new _ _))
  have hlen : (init steadySdk ⟨16, 16, 1000⟩ : QosState S H).container.priorityQueueHeap.len = 0 := MinMaxHeap.len_new
  obtain ⟨rfl, hitems, hlast, hmax, hreads, hstats⟩ := hacc.early (by rw [hlen]; decide)
    (show (steadySdk.tsc 1 - steadySdk.tsc 0) / steadySdk.ticksPerMs < TransactionContainer.sendIntervalMs by decide)
  refine ⟨tx, q, hturn, hready', hacc, ?_, hlast, hmax, hreads, hstats⟩
  rw [hitems]
  exact congrArg (tx ::ₘ ·) MinMaxHeap.items_new

theorem Filled.packetTurn {a : Ipv4Addr} {k : Nat} (hk : k < 65536) {q : QosState S H} (h : q.Filled a k) :
    ∃ event q', q.packetTurn steadySdk (signedPacket a k) = .ok (event, q') ∧ q'.Filled a (k + 1) := by
  obtain ⟨tx, batch, q', hturn, hready, hacc⟩ :=
    h.ready.accept (by decide) (signedPacket_acceptable a hk (h.seen _) (h.free k le_rfl hk))
  obtain ⟨partialMeta, hstore, habsent, hput, -⟩ := hacc.stored_signed hk
  obtain ⟨ipv4, view, feePayer, fee, hread, -, -, hmeta⟩ := hstore.readable
  obtain rfl : ipv4 = a := IpAddr.v4.inj (hread.addr.symm.trans rfl)
  have hentries : q'.partialMetas.view.entries = (UInt64.ofNat k, partialMeta) :: q.partialMetas.view.entries := by
    rw [hput, Lru.Cache.entries_put_absent partialMeta habsent]
    unfold RecencyList.kept
    rw [if_neg]
    rw [h.size]
    unfold cacheSize
    omega
  have hlookup : ∀ i < 65536, q'.partialMetas.lookup (UInt64.ofNat i) =
      if i = k then some partialMeta else q.partialMetas.lookup (UInt64.ofNat i) := by
    intro i hi
    unfold Lru.Cache.lookup
    rw [hentries, find_cons]
    simp only [hashKey_inj hi hk]
  refine ⟨_, q', hturn, hready, hacc.model.trans h.model, ?_, hacc.completeMetas.trans h.completed, ?_, ?_, ?_⟩
  · intro key
    rw [hacc.recentSignatures]
    exact h.seen key
  · rw [hentries, List.length_cons, h.size]
  · intro i hi
    rw [hlookup i (by omega)]
    by_cases hik : i = k
    · exact ⟨partialMeta, if_pos hik, by rw [hmeta]; rfl⟩
    · rw [if_neg hik]
      exact h.stored i (by omega)
  · intro i hi hle
    rw [hlookup i hle, if_neg (by omega)]
    exact h.free i (by omega) hle

theorem filled_run (a : Ipv4Addr) (args : Args) : ∀ k ≤ 65536, ∃ events q,
    run (packetTurn steadySdk) (init steadySdk args : QosState S H) ((List.range k).map (signedPacket a)) = .ok (events, q) ∧
      q.Filled a k
  | 0, _ => ⟨[], _, rfl, filled_init a args⟩
  | k + 1, hk => by
    obtain ⟨events, q, hrun, hfilled⟩ := filled_run a args k (by omega)
    obtain ⟨event, q', hturn, hfilled'⟩ := hfilled.packetTurn (by omega)
    refine ⟨events ++ [event], q', ?_, hfilled'⟩
    rw [List.range_succ, List.map_append]
    refine run_append hrun ?_
    rw [List.map_singleton, run, hturn]
    rfl

end QosState

end Qos
