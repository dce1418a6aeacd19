import SolanaQos.LruSound
import SolanaQos.Packet
/-!
# Admitting a packet (`try_process_packet` in `qos-core/src/lib.rs`)

`tryProcessPacket` follows the source exit by exit: a source that is not IPv4, a size beyond the buffer, a packet
without data, a payload that does not parse (which costs its ip a penalty) or that fails to sanitize, a confirmed
signature, no fee payer, a duplicate (which is put again), and the transaction of an admitted packet.  The
recent-signature cache is optional, as in the source.

`Outcome` lists the exits with what led to each and what each left behind; every later argument about a call reads that
list instead of the function:
* every call that returns took one of the exits (`tryProcessPacket_outcome`), and every call returns
  (`tryProcessPacket_total`): the hash is only taken of packets it is defined on;
* the cache is left alone, or put into once, under the packet's own hash (`Outcome.cache_cases`);
* the model is left alone, or penalised once (`Outcome.model_cases`).

`Readable` is a packet that gets as far as a sanitized view with an IPv4 source, and `Storable` one that has a fee
payer too, with the partial meta that is computed from it: packets with one preimage store the same
(`Storable.unique`).
-/
namespace Qos

open Runs

structure Stats where
  totalPackets : Nat := 0
  nonIpv4 : Nat := 0
  nonTransactionPacket : Nat := 0
  recentlyProcessed : Nat := 0
  recentlyProcessedQueued : Nat := 0
  recentSignaturesReceived : Nat := 0
  invalidMetaSize : Nat := 0
  failedSanitize : Nat := 0
  failedView : Nat := 0
  invalidPacketData : Nat := 0
  leakedPriority : Nat := 0
  duplicatePackets : Nat := 0
  bankingTransmissions : Nat := 0
  zeroScore : Nat := 0
  completed : Nat := 0
  deriving DecidableEq

inductive PacketProcessorError
  | addrNotIpv4
  | nonTransactionPacket
  | failedTransactionView
  | failedSanitize
  | invalidMetadata
  | duplicatePacket
  | recentlyProcessed
  deriving DecidableEq

variable {S : Sokoban} {F : Type} [LinearOrder F] {signers ips cacheSize sigCacheSize : Nat}

/-- What a call returns and leaves behind. -/
structure Processed (S : Sokoban) (F : Type) [LinearOrder F] (signers ips cacheSize : Nat) where
  result : Except PacketProcessorError (ScoredTransaction F)
  model : IpSignerModel S F signers ips
  partialMetas : Lru.Cache UInt64 QoSPartialMeta cacheSize
  stats : Stats

/-- `recent_signatures.is_some_and(|rs| rs.contains(key))`. -/
def seenRecently (recentSignatures : Option (Lru.Cache UInt64 Unit sigCacheSize)) (key : UInt64) : Bool :=
  recentSignatures.any (·.contains key)

variable [One F] [Mul F] [Div F] [NatCast F] [OfScientific F]

/-- The part of `try_process_packet` behind the parser. -/
def processTransaction (sdk : Sdk) (packet : Packet) (ipv4 : Ipv4Addr) (transaction : TransactionView)
    (recentSignatures : Option (Lru.Cache UInt64 Unit sigCacheSize)) (model : IpSignerModel S F signers ips)
    (partialMetas : Lru.Cache UInt64 QoSPartialMeta cacheSize) (stats : Stats) :
    Except Panic (Processed S F signers ips cacheSize) :=
  let sigKey := u64Key transaction.firstSignature
  if seenRecently recentSignatures sigKey then
    .ok ⟨.error .recentlyProcessed, model, partialMetas,
      { stats with recentlyProcessed := stats.recentlyProcessed + 1 }⟩
  else
    match transaction.feePayer with
    | none =>
      .ok ⟨.error .invalidMetadata, model, partialMetas, { stats with invalidPacketData := stats.invalidPacketData + 1 }⟩
    | some feePayer => do
      let txFee ← totalFee sdk transaction
      let partialMeta := QoSPartialMeta.new ipv4 feePayer txFee.totalFee txFee.requestedCus
      let score := model.forward partialMeta.ip partialMeta.signer *
        ((partialMeta.totalFee.toNat : F) / ((max partialMeta.cus 1).toNat : F))
      let packetKey ← packetHash sdk packet
      match partialMetas.put packetKey partialMeta with
      | ((none, true), partialMetas) =>
        return ⟨.error .duplicatePacket, model, partialMetas,
          { stats with duplicatePackets := stats.duplicatePackets + 1 }⟩
      -- a full cache drops its oldest entry and the packet goes on
      | ((_, _), partialMetas) =>
        return ⟨.ok ⟨score, sigKey, packet, u32FromLeBytes ipv4.octets⟩, model, partialMetas, stats⟩

def tryProcessPacket (sdk : Sdk) (packet : Packet)
    (recentSignatures : Option (Lru.Cache UInt64 Unit sigCacheSize)) (model : IpSignerModel S F signers ips)
    (partialMetas : Lru.Cache UInt64 QoSPartialMeta cacheSize) (stats : Stats) :
    Except Panic (Processed S F signers ips cacheSize) :=
  let stats := { stats with totalPackets := stats.totalPackets + 1 }
  match packet.metadata.addr with
  | .v6 _ => .ok ⟨.error .addrNotIpv4, model, partialMetas, { stats with nonIpv4 := stats.nonIpv4 + 1 }⟩
  | .v4 ipv4 =>
    if packetDataSize < packet.metadata.size.toNat then
      .ok ⟨.error .invalidMetadata, model, partialMetas, { stats with invalidMetaSize := stats.invalidMetaSize + 1 }⟩
    else
      match (sdk.data packet).map sdk.tryNewUnsanitized with
      | some (some unsanitized) =>
        match sdk.sanitize unsanitized with
        | none =>
          .ok ⟨.error .failedSanitize, model, partialMetas, { stats with failedSanitize := stats.failedSanitize + 1 }⟩
        | some transaction =>
          processTransaction sdk packet ipv4 transaction recentSignatures model partialMetas stats
      -- the source is sending bad data
      | some none =>
        .ok ⟨.error .failedTransactionView, model.ipFeedback ipv4.toBits, partialMetas,
          { stats with failedView := stats.failedView + 1 }⟩
      | none =>
        .ok ⟨.error .nonTransactionPacket, model, partialMetas,
          { stats with invalidPacketData := stats.invalidPacketData + 1 }⟩

/-! ## The exits -/

def Sdk.view (sdk : Sdk) (packet : Packet) : Option TransactionView := do
  let bytes ← sdk.data packet
  let unsanitized ← sdk.tryNewUnsanitized bytes
  sdk.sanitize unsanitized

structure Readable (sdk : Sdk) (packet : Packet) (ipv4 : Ipv4Addr) (view : TransactionView) : Prop where
  addr : packet.metadata.addr = .v4 ipv4
  size : packet.metadata.size.toNat ≤ packetDataSize
  view : sdk.view packet = some view

/-- A readable packet with a fee payer: what the partial meta cache stores for it, and under which key. -/
structure Storable (sdk : Sdk) (packet : Packet) (key : UInt64) (partialMeta : QoSPartialMeta) : Prop where
  readable : ∃ ipv4 view feePayer fee, Readable sdk packet ipv4 view ∧ view.feePayer = some feePayer ∧
    totalFee sdk view = .ok fee ∧ partialMeta = QoSPartialMeta.new ipv4 feePayer fee.totalFee fee.requestedCus
  hash : packetHash sdk packet = .ok key

/-- **The exits of `try_process_packet`**, with what led there and what was written. -/
inductive Outcome (sdk : Sdk) (packet : Packet) (recentSignatures : Option (Lru.Cache UInt64 Unit sigCacheSize))
    (model : IpSignerModel S F signers ips) (partialMetas : Lru.Cache UInt64 QoSPartialMeta cacheSize)
    (stats : Stats) : Processed S F signers ips cacheSize → Prop
  | addrNotIpv4 (octets : Vector UInt8 16) (haddr : packet.metadata.addr = .v6 octets) :
    Outcome sdk packet recentSignatures model partialMetas stats ⟨.error .addrNotIpv4, model, partialMetas,
      { stats with totalPackets := stats.totalPackets + 1, nonIpv4 := stats.nonIpv4 + 1 }⟩
  | invalidMetaSize (ipv4 : Ipv4Addr) (haddr : packet.metadata.addr = .v4 ipv4)
      (hsize : packetDataSize < packet.metadata.size.toNat) :
    Outcome sdk packet recentSignatures model partialMetas stats ⟨.error .invalidMetadata, model, partialMetas,
      { stats with totalPackets := stats.totalPackets + 1, invalidMetaSize := stats.invalidMetaSize + 1 }⟩
  | failedSanitize (ipv4 : Ipv4Addr) (haddr : packet.metadata.addr = .v4 ipv4) (hview : sdk.view packet = none) :
    Outcome sdk packet recentSignatures model partialMetas stats ⟨.error .failedSanitize, model, partialMetas,
      { stats with totalPackets := stats.totalPackets + 1, failedSanitize := stats.failedSanitize + 1 }⟩
  | failedView (ipv4 : Ipv4Addr) (bytes : List UInt8) (haddr : packet.metadata.addr = .v4 ipv4)
      (hdata : sdk.data packet = some bytes) (hparse : sdk.tryNewUnsanitized bytes = none) :
    Outcome sdk packet recentSignatures model partialMetas stats
      ⟨.error .failedTransactionView, model.ipFeedback ipv4.toBits, partialMetas,
        { stats with totalPackets := stats.totalPackets + 1, failedView := stats.failedView + 1 }⟩
  | nonTransactionPacket (ipv4 : Ipv4Addr) (haddr : packet.metadata.addr = .v4 ipv4)
      (hview : sdk.view packet = none) :
    Outcome sdk packet recentSignatures model partialMetas stats ⟨.error .nonTransactionPacket, model, partialMetas,
      { stats with totalPackets := stats.totalPackets + 1, invalidPacketData := stats.invalidPacketData + 1 }⟩
  | recentlyProcessed (ipv4 : Ipv4Addr) (view : TransactionView) (hread : Readable sdk packet ipv4 view)
      (hseen : seenRecently recentSignatures (u64Key view.firstSignature) = true) :
    Outcome sdk packet recentSignatures model partialMetas stats ⟨.error .recentlyProcessed, model, partialMetas,
      { stats with totalPackets := stats.totalPackets + 1, recentlyProcessed := stats.recentlyProcessed + 1 }⟩
  | noFeePayer (ipv4 : Ipv4Addr) (view : TransactionView) (hread : Readable sdk packet ipv4 view)
      (hseen : seenRecently recentSignatures (u64Key view.firstSignature) = false) :
    Outcome sdk packet recentSignatures model partialMetas stats ⟨.error .invalidMetadata, model, partialMetas,
      { stats with totalPackets := stats.totalPackets + 1, invalidPacketData := stats.invalidPacketData + 1 }⟩
  | duplicate (ipv4 : Ipv4Addr) (view : TransactionView) (key : UInt64) (partialMeta : QoSPartialMeta)
      (hread : Readable sdk packet ipv4 view)
      (hseen : seenRecently recentSignatures (u64Key view.firstSignature) = false)
      (hstore : Storable sdk packet key partialMeta) (hput : (partialMetas.put key partialMeta).1 = (none, true)) :
    Outcome sdk packet recentSignatures model partialMetas stats
      ⟨.error .duplicatePacket, model, (partialMetas.put key partialMeta).2,
        { stats with totalPackets := stats.totalPackets + 1, duplicatePackets := stats.duplicatePackets + 1 }⟩
  | admitted (ipv4 : Ipv4Addr) (view : TransactionView) (key : UInt64) (partialMeta : QoSPartialMeta) (score : F)
      (hread : Readable sdk packet ipv4 view)
      (hseen : seenRecently recentSignatures (u64Key view.firstSignature) = false)
      (hstore : Storable sdk packet key partialMeta) (hput : (partialMetas.put key partialMeta).1 ≠ (none, true)) :
    Outcome sdk packet recentSignatures model partialMetas stats
      ⟨.ok ⟨score, u64Key view.firstSignature, packet, u32FromLeBytes ipv4.octets⟩, model,
        (partialMetas.put key partialMeta).2, { stats with totalPackets := stats.totalPackets + 1 }⟩

variable {sdk : Sdk} {packet : Packet} {recentSignatures : Option (Lru.Cache UInt64 Unit sigCacheSize)}
  {model : IpSignerModel S F signers ips} {partialMetas : Lru.Cache UInt64 QoSPartialMeta cacheSize} {stats : Stats}
  {r : Processed S F signers ips cacheSize}

theorem processTransaction_outcome {ipv4 : Ipv4Addr} {view : TransactionView} (hread : Readable sdk packet ipv4 view)
    (h : processTransaction sdk packet ipv4 view recentSignatures model partialMetas
      { stats with totalPackets := stats.totalPackets + 1 } = .ok r) :
    Outcome sdk packet recentSignatures model partialMetas stats r := by
  unfold processTransaction at h
  by_cases hseen : seenRecently recentSignatures (u64Key view.firstSignature) = true
  · simp only [hseen, if_true] at h
    cases h
    exact .recentlyProcessed ipv4 view hread hseen
  · simp only [hseen] at h
    rw [Bool.not_eq_true] at hseen
    cases hfee : view.feePayer with
    | none =>
      simp only [hfee] at h
      cases h
      exact .noFeePayer ipv4 view hread hseen
    | some feePayer =>
      simp only [hfee] at h
      obtain ⟨fee, htotal, h⟩ := bind_eq_ok h
      obtain ⟨key, hkey, h⟩ := bind_eq_ok h
      have hstore : Storable sdk packet key (QoSPartialMeta.new ipv4 feePayer fee.totalFee fee.requestedCus) :=
        ⟨⟨ipv4, view, feePayer, fee, hread, hfee, htotal, rfl⟩, hkey⟩
      generalize QoSPartialMeta.new ipv4 feePayer fee.totalFee fee.requestedCus = partialMeta at h hstore
      by_cases hput : (partialMetas.put key partialMeta).1 = (none, true)
      · have he : partialMetas.put key partialMeta = ((none, true), (partialMetas.put key partialMeta).2) := by
          rw [← hput]
        rw [he] at h
        cases h
        exact .duplicate ipv4 view key partialMeta hread hseen hstore hput
      · split at h
        · rename_i he
          exact absurd (by rw [he]) hput
        · rename_i after _ he
          have hafter : after = (partialMetas.put key partialMeta).2 := by rw [he]
          cases h
          rw [hafter]
          exact .admitted ipv4 view key partialMeta _ hread hseen hstore hput

/-- **Every call that returns took one of the exits.** -/
theorem tryProcessPacket_outcome (h : tryProcessPacket sdk packet recentSignatures model partialMetas stats = .ok r) :
    Outcome sdk packet recentSignatures model partialMetas stats r := by
  unfold tryProcessPacket at h
  cases haddr : packet.metadata.addr with
  | v6 octets =>
    simp only [haddr] at h
    cases h
    exact .addrNotIpv4 octets haddr
  | v4 ipv4 =>
    simp only [haddr] at h
    by_cases hsize : packetDataSize < packet.metadata.size.toNat
    · simp only [hsize, if_true] at h
      cases h
      exact .invalidMetaSize ipv4 haddr hsize
    · simp only [hsize, if_false] at h
      cases hdata : sdk.data packet with
      | none =>
        simp only [hdata, Option.map_none] at h
        cases h
        exact .nonTransactionPacket ipv4 haddr (by simp [Sdk.view, hdata])
      | some bytes =>
        simp only [hdata, Option.map_some] at h
        cases hparse : sdk.tryNewUnsanitized bytes with
        | none =>
          simp only [hparse] at h
          cases h
          exact .failedView ipv4 bytes haddr hdata hparse
        | some unsanitized =>
          simp only [hparse] at h
          cases hsan : sdk.sanitize unsanitized with
          | none =>
            simp only [hsan] at h
            cases h
            exact .failedSanitize ipv4 haddr (by simp [Sdk.view, hdata, hparse, hsan])
          | some view =>
            simp only [hsan] at h
            exact processTransaction_outcome ⟨haddr, not_lt.1 hsize, by simp [Sdk.view, hdata, hparse, hsan]⟩ h

omit [OfScientific F] in
theorem processTransaction_total {ipv4 : Ipv4Addr} (view : TransactionView) (haddr : packet.metadata.addr = .v4 ipv4)
    (hsize : packet.metadata.size.toNat ≤ packetDataSize) :
    ∃ r, processTransaction sdk packet ipv4 view recentSignatures model partialMetas stats = .ok r := by
  obtain ⟨fee, htotal⟩ := totalFee_total sdk view
  obtain ⟨key, hkey⟩ : ∃ key, packetHash sdk packet = .ok key := by
    rw [packetHash, preimage_eq haddr hsize]
    exact ⟨_, rfl⟩
  unfold processTransaction
  by_cases hseen : seenRecently recentSignatures (u64Key view.firstSignature) = true
  · simp only [hseen, if_true]
    exact ⟨_, rfl⟩
  · simp only [hseen]
    cases hfee : view.feePayer with
    | none => exact ⟨_, rfl⟩
    | some feePayer =>
      simp only [htotal, hkey]
      rw [if_neg (by decide), ok_bind, ok_bind]
      split
      · exact ⟨_, rfl⟩
      · exact ⟨_, rfl⟩

/-- **A call always returns**: the hash is only taken of packets it is defined on, and the fee scan reads in bounds. -/
theorem tryProcessPacket_total (sdk : Sdk) (packet : Packet)
    (recentSignatures : Option (Lru.Cache UInt64 Unit sigCacheSize)) (model : IpSignerModel S F signers ips)
    (partialMetas : Lru.Cache UInt64 QoSPartialMeta cacheSize) (stats : Stats) :
    ∃ r, tryProcessPacket sdk packet recentSignatures model partialMetas stats = .ok r := by
  unfold tryProcessPacket
  cases haddr : packet.metadata.addr with
  | v6 octets => exact ⟨_, rfl⟩
  | v4 ipv4 =>
    simp only
    by_cases hsize : packetDataSize < packet.metadata.size.toNat
    · rw [if_pos hsize]
      exact ⟨_, rfl⟩
    · rw [if_neg hsize]
      split
      · split
        · exact ⟨_, rfl⟩
        · exact processTransaction_total _ haddr (not_lt.1 hsize)
      · exact ⟨_, rfl⟩
      · exact ⟨_, rfl⟩

omit [One F] [Div F] [NatCast F] in
/-- **What a call does to the partial meta cache**: nothing, or one `put` that decides between a duplicate and an
admission. -/
theorem Outcome.cache_cases (h : Outcome sdk packet recentSignatures model partialMetas stats r) :
    (r.partialMetas = partialMetas ∧ ∃ e, r.result = .error e ∧ e ≠ .duplicatePacket) ∨
      ∃ key partialMeta, Storable sdk packet key partialMeta ∧
        r.partialMetas = (partialMetas.put key partialMeta).2 ∧
        ((r.result = .error .duplicatePacket ∧ (partialMetas.lookup key).isSome = true) ∨
          (∃ tx, r.result = .ok tx) ∧ partialMetas.lookup key = none) := by
  cases h with
  | duplicate ipv4 view key partialMeta hread hseen hstore hput =>
    exact Or.inr ⟨key, partialMeta, hstore, rfl, Or.inl ⟨rfl, (partialMetas.put_duplicate_iff _ _).1 hput⟩⟩
  | admitted ipv4 view key partialMeta score hread hseen hstore hput =>
    rw [Lru.Cache.put_fresh_iff] at hput
    exact Or.inr ⟨key, partialMeta, hstore, rfl, Or.inr ⟨⟨_, rfl⟩, hput⟩⟩
  | _ => exact Or.inl ⟨rfl, _, rfl, by decide⟩

omit [One F] [Div F] [NatCast F] in
theorem Outcome.model_cases (h : Outcome sdk packet recentSignatures model partialMetas stats r) :
    r.model = model ∨ ∃ ipv4 : Ipv4Addr, r.model = model.ipFeedback ipv4.toBits := by
  cases h with
  | failedView ipv4 bytes haddr hdata hparse => exact Or.inr ⟨ipv4, rfl⟩
  | _ => exact Or.inl rfl

theorem Storable.unique {packet' : Packet} {key key' : UInt64} {partialMeta partialMeta' : QoSPartialMeta}
    (h : Storable sdk packet key partialMeta) (h' : Storable sdk packet' key' partialMeta')
    (hpreimage : preimage packet = preimage packet') : partialMeta = partialMeta' := by
  obtain ⟨ipv4, view, feePayer, fee, hread, hpayer, hfee, rfl⟩ := h.readable
  obtain ⟨ipv4', view', feePayer', fee', hread', hpayer', hfee', rfl⟩ := h'.readable
  rw [preimage_eq hread.addr hread.size, preimage_eq hread'.addr hread'.size] at hpreimage
  have hbytes := Except.ok.inj hpreimage
  obtain ⟨hpayload, hipv4⟩ := suffixed_inj hbytes
  have hview : view = view' := by
    obtain ⟨bytes, hdata, hparse⟩ := Option.bind_eq_some_iff.1 hread.view
    obtain ⟨bytes', hdata', hparse'⟩ := Option.bind_eq_some_iff.1 hread'.view
    rw [sdk.data_eq _ _ hdata, hpayload, ← sdk.data_eq _ _ hdata', hparse'] at hparse
    exact (Option.some.inj hparse).symm
  subst hipv4 hview
  rw [hpayer] at hpayer'
  rw [hfee] at hfee'
  cases hpayer'
  cases hfee'
  rfl

omit [One F] [Div F] [NatCast F] in
/-- **A readable packet is rejected as recently processed exactly when the cache holds its key.** -/
theorem Outcome.recentlyProcessed_iff {ipv4 : Ipv4Addr} {view : TransactionView}
    (h : Outcome sdk packet recentSignatures model partialMetas stats r) (hread : Readable sdk packet ipv4 view) :
    r.result = .error .recentlyProcessed ↔ seenRecently recentSignatures (u64Key view.firstSignature) = true := by
  have hsame : ∀ {ipv4' view'}, Readable sdk packet ipv4' view' → view' = view := by
    intro ipv4' view' hread'
    exact Option.some.inj (hread'.view.symm.trans hread.view)
  cases h with
  | addrNotIpv4 octets haddr =>
    rw [hread.addr] at haddr
    cases haddr
  | invalidMetaSize ipv4' haddr hsize => exact absurd hread.size (not_le.2 hsize)
  | failedSanitize ipv4' haddr hview =>
    rw [hread.view] at hview
    cases hview
  | failedView ipv4' bytes haddr hdata hparse =>
    have hview := hread.view
    simp [Sdk.view, hdata, hparse] at hview
  | nonTransactionPacket ipv4' haddr hview =>
    rw [hread.view] at hview
    cases hview
  | recentlyProcessed ipv4' view' hread' hseen => simpa using hsame hread' ▸ hseen
  | noFeePayer ipv4' view' hread' hseen => simpa using hsame hread' ▸ hseen
  | duplicate ipv4' view' key partialMeta hread' hseen => simpa using hsame hread' ▸ hseen
  | admitted ipv4' view' key partialMeta score hread' hseen => simpa using hsame hread' ▸ hseen

end Qos
