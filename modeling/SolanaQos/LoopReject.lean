import SolanaQos.LoopCredit
import SolanaQos.LoopTotal
/-!
# What a rejected packet leaves behind

`try_process_packet` has eight ways to reject a packet, and two of them come after a write: a payload that does not
parse has cost its ip a penalty, and a duplicate has been put into the partial meta cache again.  The second put stores
what is there already, because a stored partial meta was computed from a packet seen before, and a packet with the same
preimage stores the same.

`Harmless` says what may be left: the counters `total_packets` and one other are one higher (`Stats.Counted`), the two
ip tables agree on all ips but one (`SameButOne`), and the cache holds what it held.  `Admission` says what an
admission does instead: one entry in front, and at most the last one lost.

The only assumption on the hash is that it tells the packet at hand from the packets of the run with another preimage
(`Distinguished`).  The theorem is about every reachable state, with the history from which `Credited` knows where the
stored partial metas come from.  The witness has two runs: one ends in a payload that does not parse, and the other in
a duplicate among numbered packets, where the assumption is needed.
-/
namespace Qos

open Runs ScoreTable Recency

def Stats.others (s : Stats) : List Nat :=
  [s.nonIpv4, s.nonTransactionPacket, s.recentlyProcessed, s.recentlyProcessedQueued, s.recentSignaturesReceived,
    s.invalidMetaSize, s.failedSanitize, s.failedView, s.invalidPacketData, s.leakedPriority, s.duplicatePackets,
    s.bankingTransmissions, s.zeroScore, s.completed]

/-- `total_packets` and exactly one other counter have grown by one. -/
def Stats.Counted (before after : Stats) : Prop :=
  after.totalPackets = before.totalPackets + 1 ∧
    ∃ i < before.others.length, after.others = before.others.modify i (· + 1)

section Calls

variable {S : Sokoban} {F : Type} [LinearOrder F] {signers ips cacheSize sigCacheSize : Nat}
variable {sdk : Sdk} {packet : Packet} {recentSignatures : Option (Lru.Cache UInt64 Unit sigCacheSize)}
  {model : IpSignerModel S F signers ips} {partialMetas : Lru.Cache UInt64 QoSPartialMeta cacheSize} {stats : Stats}
  {r : Processed S F signers ips cacheSize}

/-- The two ip tables agree on every ip but one. -/
def SameButOne (model model' : IpSignerModel S F signers ips) : Prop :=
  ∃ ip, ∀ ip', ip' ≠ ip → S.get model'.ip.score ip' = S.get model.ip.score ip' ∧
    ∀ s, (S.get model'.ip.inverse (entry s ip')).isSome = (S.get model.ip.inverse (entry s ip')).isSome

/-- **What a rejection may leave behind.** -/
structure Harmless (sdk : Sdk) (packet : Packet) (model : IpSignerModel S F signers ips)
    (partialMetas : Lru.Cache UInt64 QoSPartialMeta cacheSize) (stats : Stats) (e : PacketProcessorError)
    (r : Processed S F signers ips cacheSize) : Prop where
  mapping : ∀ key, r.partialMetas.lookup key = partialMetas.lookup key
  order : e ≠ .duplicatePacket → r.partialMetas.view.entries = partialMetas.view.entries
  front : e = .duplicatePacket → ∃ key partialMeta, packetHash sdk packet = .ok key ∧
    partialMetas.lookup key = some partialMeta ∧
    r.partialMetas.view.entries = (key, partialMeta) :: without partialMetas.view.entries key
  signers : r.model.signer = model.signer
  ips : e ≠ .failedTransactionView → r.model.ip = model.ip
  oneIp : e = .failedTransactionView → SameButOne model r.model
  counted : Stats.Counted stats r.stats

/-- **What an admission changes**: the cache, by one entry in front and at most the last one lost. -/
structure Admission (sdk : Sdk) (packet : Packet) (model : IpSignerModel S F signers ips)
    (partialMetas : Lru.Cache UInt64 QoSPartialMeta cacheSize) (stats : Stats)
    (r : Processed S F signers ips cacheSize) : Prop where
  model : r.model = model
  stats : r.stats = { stats with totalPackets := stats.totalPackets + 1 }
  cache : ∃ key partialMeta kept lost, Storable sdk packet key partialMeta ∧ partialMetas.lookup key = none ∧
    partialMetas.view.entries = kept ++ lost ∧ lost.length ≤ 1 ∧
    r.partialMetas.view.entries = (key, partialMeta) :: kept

variable [One F] [Mul F] [Div F] [NatCast F] [OfScientific F]

omit [One F] [Div F] [NatCast F] in
theorem sameButOne_ipFeedback (h : model.Consistent) (ip : UInt32) : SameButOne model (model.ipFeedback ip) := by
  obtain ⟨⟨f, hf⟩, -⟩ := h
  have hfed := hf.feedback ip
  refine ⟨ip, fun ip' hne => ⟨?_, fun s => ?_⟩⟩
  · unfold IpSignerModel.ipFeedback
    rw [hfed.score, hf.score, Function.update_of_ne hne]
  · unfold IpSignerModel.ipFeedback
    rw [Bool.eq_iff_iff, hfed.inverse, hf.inverse, Function.update_of_ne hne]

omit [LinearOrder F] [One F] [Mul F] [Div F] [NatCast F] [OfScientific F] in
theorem put_absent_entries {n : Nat} {c : Lru.Cache UInt64 QoSPartialMeta n} {key : UInt64} (partialMeta : QoSPartialMeta)
    (habsent : c.lookup key = none) : ∃ kept lost, c.view.entries = kept ++ lost ∧ lost.length ≤ 1 ∧
      (c.put key partialMeta).2.view.entries = (key, partialMeta) :: kept := by
  rw [Lru.Cache.entries_put_absent partialMeta habsent]
  unfold RecencyList.kept
  split
  · -- a full cache loses its last entry
    rcases List.eq_nil_or_concat c.view.entries with hnil | ⟨kept, e, hsplit⟩
    · exact ⟨[], [], hnil, Nat.zero_le _, by rw [hnil]; rfl⟩
    · rw [List.concat_eq_append] at hsplit
      exact ⟨kept, [e], hsplit, le_rfl, by rw [hsplit, List.dropLast_concat]⟩
  · exact ⟨c.view.entries, [], (List.append_nil _).symm, Nat.zero_le _, rfl⟩

omit [One F] [Div F] [NatCast F] in
/-- **Every rejection is harmless**, if a stored partial meta under the packet's key is the packet's own. -/
theorem Outcome.harmless (h : Outcome sdk packet recentSignatures model partialMetas stats r)
    (hconsistent : model.Consistent)
    (hown : ∀ key stored partialMeta, partialMetas.lookup key = some stored → Storable sdk packet key partialMeta →
      stored = partialMeta) {e : PacketProcessorError} (he : r.result = .error e) :
    Harmless sdk packet model partialMetas stats e r := by
  -- an exit before the put writes no table and one counter
  have hquiet : ∀ {e' : PacketProcessorError} {stats' : Stats}, e' ≠ .duplicatePacket →
      e' ≠ .failedTransactionView → Stats.Counted stats stats' →
      Harmless sdk packet model partialMetas stats e' ⟨.error e', model, partialMetas, stats'⟩ := by
    intro e' stats' hdup hfail hcounted
    exact ⟨fun _ => rfl, fun _ => rfl, fun heq => absurd heq hdup, rfl, fun _ => rfl, fun heq => absurd heq hfail,
      hcounted⟩
  cases h with
  | addrNotIpv4 octets haddr =>
    cases he
    exact hquiet (by decide) (by decide) ⟨rfl, 0, by simp [Stats.others], rfl⟩
  | invalidMetaSize ipv4 haddr hsize =>
    cases he
    exact hquiet (by decide) (by decide) ⟨rfl, 5, by simp [Stats.others], rfl⟩
  | failedSanitize ipv4 haddr hview =>
    cases he
    exact hquiet (by decide) (by decide) ⟨rfl, 6, by simp [Stats.others], rfl⟩
  | failedView ipv4 bytes haddr hdata hparse =>
    cases he
    exact ⟨fun _ => rfl, fun _ => rfl, nofun, rfl, fun hne => absurd rfl hne,
      fun _ => sameButOne_ipFeedback hconsistent _, rfl, 7, by simp [Stats.others], rfl⟩
  | nonTransactionPacket ipv4 haddr hview =>
    cases he
    exact hquiet (by decide) (by decide) ⟨rfl, 8, by simp [Stats.others], rfl⟩
  | recentlyProcessed ipv4 view hread hseen =>
    cases he
    exact hquiet (by decide) (by decide) ⟨rfl, 2, by simp [Stats.others], rfl⟩
  | noFeePayer ipv4 view hread hseen =>
    cases he
    exact hquiet (by decide) (by decide) ⟨rfl, 8, by simp [Stats.others], rfl⟩
  | duplicate ipv4 view key partialMeta hread hseen hstore hput =>
    cases he
    obtain ⟨stored, hstored⟩ := Option.isSome_iff_exists.1 ((partialMetas.put_duplicate_iff key partialMeta).1 hput)
    obtain rfl : stored = partialMeta := hown key stored partialMeta hstored hstore
    have hentries := Lru.Cache.entries_put_present stored hstored
    refine ⟨fun k => ?_, fun hne => absurd rfl hne, fun _ => ⟨key, stored, hstore.hash, hstored, hentries⟩, rfl,
      fun _ => rfl, nofun, rfl, 10, by simp [Stats.others], rfl⟩
    -- the value put back is the value that was there
    show (partialMetas.put key stored).2.lookup k = partialMetas.lookup k
    rw [Lru.Cache.lookup_put_present stored hstored]
    by_cases hk : k = key
    · rw [if_pos hk, hk, hstored]
    · rw [if_neg hk]
  | admitted ipv4 view key partialMeta score hread hseen hstore hput => cases he

omit [One F] [Div F] [NatCast F] in
theorem Outcome.admission (h : Outcome sdk packet recentSignatures model partialMetas stats r)
    {tx : ScoredTransaction F} (htx : r.result = .ok tx) : Admission sdk packet model partialMetas stats r := by
  cases h with
  | admitted ipv4 view key partialMeta score hread hseen hstore hput =>
    rw [Lru.Cache.put_fresh_iff] at hput
    obtain ⟨kept, lost, hsplit, hlost, hentries⟩ := put_absent_entries partialMeta hput
    exact ⟨rfl, rfl, key, partialMeta, kept, lost, hstore, hput, hsplit, hlost, hentries⟩
  | _ => cases htx

end Calls

namespace QosState

variable {S : Sokoban} {F : Type} [LinearOrder F] {H : HeapCrate (ScoredTransaction F)}
variable [Zero F] [One F] [Add F] [Sub F] [Mul F] [Div F] [NatCast F] [OfScientific F]

omit [Zero F] in
theorem Turn.consistent {sdk : Sdk} {args : Args} {q q' : QosState S H} {message : Message} {event : Event F}
    (h : Turn sdk args q message event q') (hq : q.model.Consistent) : q'.model.Consistent := by
  cases h with
  | packet hturn =>
    cases hturn with
    | rejected r e hout hresult => exact hout.consistent hq
    | queued r tx zeroScore reads queued sent stats stats' batch hout => exact hout.consistent hq
  | recentSignature signature => exact hq
  | remainingMeta hturn =>
    cases hturn with
    | absent habsent => exact hq
    | completed partialMeta hlookup hlen => exact hq
    | updated partialMeta model hlookup hlen hmodel =>
      obtain ⟨model', hmodel', hconsistent⟩ := hq.updateModel _ args.maxSigners args.maxIps
      rw [hmodel] at hmodel'
      cases hmodel'
      exact hconsistent
  | sigverifyFailed model hmodel =>
    obtain ⟨ip, rfl⟩ := processFailedSigverify_ok hmodel
    exact hq.ipFeedback ip

theorem consistent_run {sdk : Sdk} {args : Args} {calls : List Call} {events : List (List (Event F))}
    {q : QosState S H} (hrun : run (call sdk args) (init sdk args) calls = .ok (events, q)) : q.model.Consistent := by
  obtain ⟨messages, hturns⟩ := run_calls hrun
  exact run_inv (fun q : QosState S H => q.model.Consistent) (fun q m event q' hq hturn => (turn_cases hturn).consistent hq)
    messages _ _ _ IpSignerModel.consistent_new hturns

/-- The packet's hash is shared by no packet of the trace with another preimage. -/
def Distinguished (sdk : Sdk) (packet : Packet) (trace : List (Event F)) : Prop :=
  ∀ event ∈ trace, ∀ packet' key, event.about packet' → packetHash sdk packet' = .ok key →
    packetHash sdk packet = .ok key → preimage packet' = preimage packet

/-- **Rejection leaves state intact.**  In every state the loop reaches, a packet whose hash does not collide with an
earlier one either is rejected and harmless, or is admitted and changes the cache by its own entry. -/
theorem rejection_harmless (sdk : Sdk) (args : Args) (calls : List Call) (events : List (List (Event F)))
    (q : QosState S H) (hrun : run (call sdk args) (init sdk args) calls = .ok (events, q)) (packet : Packet)
    (hfree : Distinguished sdk packet events.flatten) :
    ∃ r, tryProcessPacket sdk packet (some q.recentSignatures) q.model q.partialMetas q.stats = .ok r ∧
      (∀ e, r.result = .error e → Harmless sdk packet q.model q.partialMetas q.stats e r) ∧
      ∀ tx, r.result = .ok tx → Admission sdk packet q.model q.partialMetas q.stats r := by
  obtain ⟨r, hr⟩ := tryProcessPacket_total sdk packet (some q.recentSignatures) q.model q.partialMetas q.stats
  have hout := tryProcessPacket_outcome hr
  refine ⟨r, hr, fun e he => hout.harmless (consistent_run hrun) ?_ he, fun tx htx => hout.admission htx⟩
  intro key stored partialMeta hlookup hstore
  obtain ⟨event, hmem, packet', habout, hstored⟩ := (credited_run hrun).stored key stored hlookup
  exact hstored.unique hstore (hfree event hmem packet' key habout hstored.hash hstore.hash)

omit [LinearOrder F] [Zero F] [One F] [Add F] [Sub F] [Mul F] [Div F] [NatCast F] [OfScientific F] in
theorem message_of_about {event : Event F} {packet : Packet} (h : event.about packet) :
    event.message = .packet packet := by
  cases event with
  | packet p result batch => exact congrArg Message.packet h
  | _ => cases h

omit [LinearOrder F] [Zero F] [One F] [Add F] [Sub F] [Mul F] [Div F] [NatCast F] [OfScientific F] in
theorem distinguished_signed {a : Ipv4Addr} {k i : Nat} (hk : k ≤ 65536) (hi : i < k) {events : List (Event F)}
    (hmessages : events.map Event.message <+: ((List.range k).map (signedPacket a)).map .packet) :
    Distinguished steadySdk (signedPacket a i) events := by
  intro event hmem packet key habout hkey hkey'
  have hpacket := hmessages.subset (List.mem_map_of_mem hmem)
  rw [message_of_about habout, List.map_map] at hpacket
  obtain ⟨j, hj, heq⟩ := List.mem_map.1 hpacket
  obtain rfl : signedPacket a j = packet := Message.packet.inj heq
  have hj : j < k := List.mem_range.1 hj
  rw [packetHash_signedPacket a (by omega)] at hkey hkey'
  rw [(hashKey_inj (by omega) (by omega)).1 (Except.ok.inj (hkey.trans hkey'.symm))]

/-- A sender of unparsable payloads, twice; and the first of two stored packets again, which no other collides with. -/
theorem rejection_harmless_two :
    (∃ q r, run (call refusingSdk ⟨16, 16, 1000⟩) (init refusingSdk ⟨16, 16, 1000⟩ : QosState sortedTree scoreHeap)
        [.transactionPackets [emptyPacket ⟨#v[1, 2, 3, 4]⟩]] =
        .ok ([[.packet (emptyPacket ⟨#v[1, 2, 3, 4]⟩) (.error .failedTransactionView) {}]], q) ∧
      tryProcessPacket refusingSdk (emptyPacket ⟨#v[1, 2, 3, 4]⟩) (some q.recentSignatures) q.model q.partialMetas
        q.stats = .ok r ∧
      Harmless refusingSdk (emptyPacket ⟨#v[1, 2, 3, 4]⟩) q.model q.partialMetas q.stats .failedTransactionView r) ∧
    ∃ events q r, run (call steadySdk ⟨16, 16, 1000⟩) (init steadySdk ⟨16, 16, 1000⟩ : QosState sortedTree scoreHeap)
        [.transactionPackets ((List.range 2).map (signedPacket ⟨#v[1, 2, 3, 4]⟩))] = .ok (events, q) ∧
      q.partialMetas.view.entries.length = 2 ∧
      tryProcessPacket steadySdk (signedPacket ⟨#v[1, 2, 3, 4]⟩ 0) (some q.recentSignatures) q.model q.partialMetas
        q.stats = .ok r ∧
      Harmless steadySdk (signedPacket ⟨#v[1, 2, 3, 4]⟩ 0) q.model q.partialMetas q.stats .duplicatePacket r := by
  constructor
  · obtain ⟨q, hrun⟩ : ∃ q, run (call refusingSdk ⟨16, 16, 1000⟩)
        (init refusingSdk ⟨16, 16, 1000⟩ : QosState sortedTree scoreHeap)
        [.transactionPackets [emptyPacket ⟨#v[1, 2, 3, 4]⟩]] =
        .ok ([[.packet (emptyPacket ⟨#v[1, 2, 3, 4]⟩) (.error .failedTransactionView) {}]], q) := ⟨_, rfl⟩
    obtain ⟨r, hr, hharmless, -⟩ := rejection_harmless _ _ _ _ q hrun (emptyPacket ⟨#v[1, 2, 3, 4]⟩) (by
      intro event hmem packet' key habout _ _
      cases List.mem_singleton.1 hmem
      rw [← habout])
    refine ⟨q, r, hrun, hr, hharmless _ ?_⟩
    cases hr
    rfl
  · obtain ⟨events, q, hpackets, hfilled⟩ :=
      filled_run (S := sortedTree) (F := ℚ) (H := scoreHeap) ⟨#v[1, 2, 3, 4]⟩ ⟨16, 16, 1000⟩ 2 (by decide)
    have hcall : (init steadySdk ⟨16, 16, 1000⟩ : QosState sortedTree scoreHeap).call steadySdk ⟨16, 16, 1000⟩
        (.transactionPackets ((List.range 2).map (signedPacket ⟨#v[1, 2, 3, 4]⟩))) = .ok (events, q) := hpackets
    have hrun := run_one hcall
    obtain ⟨r, hr, hharmless, -⟩ := rejection_harmless _ _ _ _ q hrun (signedPacket ⟨#v[1, 2, 3, 4]⟩ 0) (by
      rw [List.flatten_singleton]
      exact distinguished_signed (by decide) (by decide) (call_messages hcall))
    obtain ⟨view, hread, hpayer, -⟩ := signedPacket_readable ⟨#v[1, 2, 3, 4]⟩ 0
    have hseen : seenRecently (some q.recentSignatures) (u64Key view.firstSignature) = false := hfilled.seen _
    have hresult := result_of_readable hread hseen hpayer (packetHash_signedPacket _ (by decide)) hr
    obtain ⟨partialMeta, hstored, -⟩ := hfilled.stored 0 (by decide)
    rw [hstored] at hresult
    exact ⟨[events], q, r, hrun, hfilled.size, hr, hharmless _ hresult⟩

end QosState

end Qos
