import SolanaQos.LoopReject
import SolanaQos.LoopRoom
import SolanaQos.SaveScores
/-!
# Whose scores are saved

Every ip the model tracks is the key of an address a packet came from: the key enters with the partial meta, stays on
it through the cache and the merge, and reaches the model in a batch (`Sourced`).  A penalty tracks and forgets nothing
(`tracked_ipFeedback`), and what is tracked behind a batch was tracked before or is in it (`tracked_updateModel`).

The key is the address read little-endian, and `save_ip_scores` prints it big-endian, so a line shows the sender's
address exactly if that reads the same backwards.  `saved_address_iff` states it over every run, with the bijection
between lines and tracked ips.

The two witnesses save the scores behind the run of 401 packets from one sender: 1.2.3.4 is shown as 4.3.2.1, and
7.7.7.7 as itself.
-/
namespace Qos

open Runs Function Recency

variable {S : Sokoban} {F : Type} [LinearOrder F]

section Models

variable {maxSigners maxIps : Nat} {model model' : IpSignerModel S F maxSigners maxIps}

theorem tracked_ipFeedback [Mul F] [OfScientific F] (h : model.Consistent) (ip ip' : UInt32) :
    (S.get (model.ipFeedback ip).ip.score ip').isSome = (S.get model.ip.score ip').isSome := by
  obtain ⟨⟨f, hf⟩, -⟩ := h
  unfold IpSignerModel.ipFeedback
  rw [(hf.feedback ip).score, hf.score, update_apply]
  by_cases hip : ip' = ip
  · rw [if_pos hip, hip, Option.isSome_map]
  · rw [if_neg hip]

variable [One F] [Add F] [Sub F] [Mul F] [Div F] [NatCast F] [OfScientific F]

theorem tracked_updateModel (h : model.Consistent) {txs : List (QoSTransactionMeta F)} {pruneSigners pruneIps : Nat}
    (hmodel : model.updateModel txs pruneSigners pruneIps = .ok model') {ip : UInt32}
    (hip : (S.get model'.ip.score ip).isSome) : (S.get model.ip.score ip).isSome ∨ ∃ tx ∈ txs, tx.ip = ip := by
  obtain ⟨⟨f, hf⟩, -⟩ := h
  obtain ⟨f₁, hf₁, hcases, -⟩ := hf.updateScores (Candidates.collect QoSTransactionMeta.ip txs)
  obtain ⟨pruned, f₂, hprune, hf₂, hsub, -⟩ := hf₁.prune pruneIps
  obtain ⟨ipTable, hipTable, hmodel⟩ := bind_eq_ok hmodel
  obtain ⟨signerTable, -, hmodel⟩ := bind_eq_ok hmodel
  cases hmodel
  cases hprune.symm.trans hipTable
  rw [hf₂.score] at hip
  rw [hf.score]
  rcases hsub ip with hsame | hnone
  · rw [hsame] at hip
    rcases hcases ip with haveraged | ⟨c, hc, -⟩
    · rw [haveraged, Option.isSome_map] at hip
      exact Or.inl hip
    · exact Or.inr (List.mem_map.1 (mem_of_collect hc))
  · rw [hnone] at hip
    cases hip

end Models

/-! ## Where a tracked ip comes from -/

/-- **The key was produced from this address**: some packet of the trace came from it, and its partial meta has the
key. -/
def KeyedBy (sdk : Sdk) (trace : List (Event F)) (a : Ipv4Addr) (ip : UInt32) : Prop :=
  ∃ event ∈ trace, ∃ packet key partialMeta, event.about packet ∧ packet.metadata.addr = .v4 a ∧
    Storable sdk packet key partialMeta ∧ partialMeta.ip = ip

omit [LinearOrder F] in
theorem KeyedBy.eq {sdk : Sdk} {trace : List (Event F)} {a : Ipv4Addr} {ip : UInt32} (h : KeyedBy sdk trace a ip) :
    ip = u32FromLeBytes a.octets := by
  obtain ⟨event, -, packet, key, partialMeta, -, haddr, hstore, rfl⟩ := h
  obtain ⟨ipv4, view, feePayer, fee, hread, -, -, rfl⟩ := hstore.readable
  obtain rfl : ipv4 = a := IpAddr.v4.inj (hread.addr.symm.trans haddr)
  rfl

omit [LinearOrder F] in
theorem KeyedBy.append {sdk : Sdk} {trace : List (Event F)} {a : Ipv4Addr} {ip : UInt32} (h : KeyedBy sdk trace a ip)
    (later : List (Event F)) : KeyedBy sdk (trace ++ later) a ip := by
  obtain ⟨event, hmem, hrest⟩ := h
  exact ⟨event, List.mem_append.2 (Or.inl hmem), hrest⟩

namespace QosState

variable {H : HeapCrate (ScoredTransaction F)}

/-- **Every ip in the model and in the next batch is the key of a sender.** -/
structure Sourced (sdk : Sdk) (trace : List (Event F)) (q : QosState S H) : Prop where
  consistent : q.model.Consistent
  credited : q.Credited sdk trace
  completed : ∀ entry ∈ q.completeMetas, ∃ a, KeyedBy sdk trace a entry.ip
  tracked : ∀ ip, (S.get q.model.ip.score ip).isSome → ∃ a, KeyedBy sdk trace a ip

theorem sourced_init (sdk : Sdk) (args : Args) : (init sdk args : QosState S H).Sourced sdk [] where
  consistent := IpSignerModel.consistent_new
  credited := credited_init sdk args
  completed := fun entry h => by cases h
  tracked := fun ip h => by
    rw [show S.get (init sdk args : QosState S H).model.ip.score ip = none from S.get_new ip] at h
    cases h

theorem Credited.keyed {sdk : Sdk} {trace : List (Event F)} {q : QosState S H} {key : UInt64}
    {partialMeta : QoSPartialMeta} (h : q.Credited sdk trace) (hlookup : q.partialMetas.lookup key = some partialMeta) :
    ∃ a, KeyedBy sdk trace a partialMeta.ip := by
  obtain ⟨event, hmem, packet, habout, hstore⟩ := h.stored key partialMeta hlookup
  obtain ⟨ipv4, view, feePayer, fee, hread, -⟩ := hstore.readable
  exact ⟨ipv4, event, hmem, packet, key, partialMeta, habout, hread.addr, hstore, rfl⟩

theorem Sourced.quiet {sdk : Sdk} {trace : List (Event F)} {q q' : QosState S H} {event : Event F}
    (h : q.Sourced sdk trace) (hconsistent : q'.model.Consistent) (hcredited : q'.Credited sdk (trace ++ [event]))
    (hcompleted : q'.completeMetas = q.completeMetas)
    (htracked : ∀ ip, (S.get q'.model.ip.score ip).isSome → (S.get q.model.ip.score ip).isSome) :
    q'.Sourced sdk (trace ++ [event]) where
  consistent := hconsistent
  credited := hcredited
  completed := fun entry hentry => by
    rw [hcompleted] at hentry
    obtain ⟨a, ha⟩ := h.completed entry hentry
    exact ⟨a, ha.append _⟩
  tracked := fun ip hip => by
    obtain ⟨a, ha⟩ := h.tracked ip (htracked ip hip)
    exact ⟨a, ha.append _⟩

variable [Zero F] [One F] [Add F] [Sub F] [Mul F] [Div F] [NatCast F] [OfScientific F]

omit [Zero F] [One F] [Add F] [Sub F] [Div F] [NatCast F] in
theorem tracked_outcome {sdk : Sdk} {packet : Packet} {q : QosState S H} {r : Processed S F 16384 16384 cacheSize}
    (hout : Outcome sdk packet (some q.recentSignatures) q.model q.partialMetas q.stats r) (h : q.model.Consistent)
    (ip : UInt32) : (S.get r.model.ip.score ip).isSome = (S.get q.model.ip.score ip).isSome := by
  rcases hout.model_cases with hsame | ⟨ipv4, hfed⟩
  · rw [hsame]
  · rw [hfed]
    exact tracked_ipFeedback h _ ip

omit [Zero F] [One F] [Add F] [Sub F] [Div F] [NatCast F] in
theorem Sourced.packetTurn {sdk : Sdk} {trace : List (Event F)} {q q' : QosState S H} {packet : Packet}
    {event : Event F} (h : q.Sourced sdk trace) (hturn : PacketTurn sdk q packet event q') :
    q'.Sourced sdk (trace ++ [event]) := by
  have hcredited := h.credited.packetTurn hturn
  cases hturn with
  | rejected r e hout hresult =>
    exact h.quiet (hout.consistent h.consistent) hcredited rfl fun ip hip => tracked_outcome hout h.consistent ip ▸ hip
  | queued r tx zeroScore reads queued sent stats stats' batch hout =>
    exact h.quiet (hout.consistent h.consistent) hcredited rfl fun ip hip => tracked_outcome hout h.consistent ip ▸ hip

omit [Zero F] in
theorem Sourced.remainingMetaTurn {sdk : Sdk} {args : Args} {trace : List (Event F)} {q q' : QosState S H}
    {m : QoSRemainingMeta} {event : Event F} (h : q.Sourced sdk trace) (hconsistent : q'.model.Consistent)
    (hcredited : q'.Credited sdk (trace ++ [event])) (hturn : RemainingMetaTurn args q m event q') :
    q'.Sourced sdk (trace ++ [event]) := by
  have hentry : ∀ partialMeta, q.partialMetas.lookup m.packetHash = some partialMeta →
      ∀ entry ∈ q.completeMetas ++ [completeEntry partialMeta m], ∃ a, KeyedBy sdk (trace ++ [event]) a entry.ip := by
    intro partialMeta hlookup entry hentry
    rcases List.mem_append.1 hentry with hentry | hentry
    · obtain ⟨a, ha⟩ := h.completed entry hentry
      exact ⟨a, ha.append _⟩
    · obtain ⟨a, ha⟩ := h.credited.keyed hlookup
      rw [List.mem_singleton.1 hentry, completeEntry_ip]
      exact ⟨a, ha.append _⟩
  have hkeep : ∀ ip, (S.get q.model.ip.score ip).isSome → ∃ a, KeyedBy sdk (trace ++ [event]) a ip := by
    intro ip hip
    obtain ⟨a, ha⟩ := h.tracked ip hip
    exact ⟨a, ha.append _⟩
  cases hturn with
  | absent habsent => exact h.quiet hconsistent hcredited rfl fun ip hip => hip
  | completed partialMeta hlookup hlen => exact ⟨hconsistent, hcredited, hentry partialMeta hlookup, hkeep⟩
  | updated partialMeta model hlookup hlen hmodel =>
    refine ⟨hconsistent, hcredited, fun entry hmem => ?_, fun ip hip => ?_⟩
    · cases hmem
    · rcases tracked_updateModel h.consistent hmodel hip with hip | ⟨entry, hmem, rfl⟩
      · exact hkeep ip hip
      · exact hentry partialMeta hlookup entry hmem

theorem Sourced.turn {sdk : Sdk} {args : Args} {trace : List (Event F)} {q q' : QosState S H} {message : Message}
    {event : Event F} (h : q.Sourced sdk trace) (hturn : q.turn sdk args message = .ok (event, q')) :
    q'.Sourced sdk (trace ++ [event]) := by
  have hcredited := h.credited.turn hturn
  have hcases := turn_cases hturn
  have hconsistent := hcases.consistent h.consistent
  cases hcases with
  | packet hturn => exact h.packetTurn hturn
  | recentSignature signature => exact h.quiet hconsistent hcredited rfl fun ip hip => hip
  | remainingMeta hturn => exact h.remainingMetaTurn hconsistent hcredited hturn
  | sigverifyFailed model hmodel =>
    refine h.quiet hconsistent hcredited rfl fun ip hip => ?_
    obtain ⟨ip', rfl⟩ := processFailedSigverify_ok hmodel
    exact tracked_ipFeedback h.consistent ip' ip ▸ hip

theorem sourced_run {sdk : Sdk} {args : Args} {calls : List Call} {events : List (List (Event F))} {q : QosState S H}
    (hrun : run (call sdk args) (init sdk args) calls = .ok (events, q)) : q.Sourced sdk events.flatten := by
  obtain ⟨messages, hturns⟩ := run_calls hrun
  have hhist := run_hist (Sourced sdk) (fun trace q m event q' hq hturn => hq.turn hturn) messages [] _ _ _
    (sourced_init sdk args) hturns
  rwa [List.nil_append] at hhist

/-- **Whose address a saved line shows.**  After every run the saved lines are in bijection with the tracked ips.  Every
tracked ip was produced from the address of some packet, and its line shows that address with the current score exactly
if the four octets read the same backwards. -/
theorem saved_address_iff (sdk : Sdk) (args : Args) (calls : List Call) (events : List (List (Event F)))
    (q : QosState S H) (hrun : run (call sdk args) (init sdk args) calls = .ok (events, q)) (showScore : F → String) :
    q.model.OneLineEach showScore (q.model.saveIpScores showScore) ∧
      ∀ ip score, S.get q.model.ip.score ip = some score →
        (∃ a, KeyedBy sdk events.flatten a ip) ∧
        ∀ a, KeyedBy sdk events.flatten a ip →
          (q.model.ipLine showScore ip = some (a.display ++ " " ++ showScore score) ↔
            a.octets.toList.reverse = a.octets.toList) := by
  refine ⟨q.model.saveIpScores_lines showScore, fun ip score hscore => ⟨?_, fun a ha => ?_⟩⟩
  · exact (sourced_run hrun).tracked ip (by rw [hscore]; rfl)
  · rw [IpSignerModel.ipLine_eq_iff hscore, ha.eq]
    exact u32FromBeBytes_eq_iff a.octets

end QosState

/-! ## A tracked sender -/

namespace QosState

theorem tracked_after_flood (a : Ipv4Addr) :
    ∃ events q score, run (call steadySdk ⟨16384, 16384, 1000⟩)
        (init steadySdk ⟨16384, 16384, 1000⟩ : QosState sortedTree scoreHeap)
        [.transactionPackets ((List.range 401).map (signedPacket a)), .remainingMetas (remainingFor 0 401)] =
        .ok (events, q) ∧
      sortedTree.get q.model.ip.score (u32FromLeBytes a.octets) = some score ∧
      KeyedBy steadySdk events.flatten a (u32FromLeBytes a.octets) := by
  obtain ⟨events, q, -, hrun, -, -, htracked⟩ :=
    flood_run (S := sortedTree) (F := ℚ) (H := scoreHeap) (by decide) a ⟨16384, 16384, 1000⟩ (by decide)
  obtain ⟨score, hscore⟩ := Option.isSome_iff_exists.1 htracked
  obtain ⟨a', hkeyed⟩ := (sourced_run hrun).tracked _ htracked
  obtain rfl : a = a' := Ipv4Addr.octets_injective (u32FromLeBytes_injective hkeyed.eq)
  exact ⟨events, q, score, hrun, hscore, hkeyed⟩

/-- The line of 1.2.3.4 shows 4.3.2.1. -/
theorem saved_address_reversed :
    ∃ events q score, run (call steadySdk ⟨16384, 16384, 1000⟩)
        (init steadySdk ⟨16384, 16384, 1000⟩ : QosState sortedTree scoreHeap)
        [.transactionPackets ((List.range 401).map (signedPacket ⟨#v[1, 2, 3, 4]⟩)),
          .remainingMetas (remainingFor 0 401)] = .ok (events, q) ∧
      sortedTree.get q.model.ip.score 0x04030201 = some score ∧
      KeyedBy steadySdk events.flatten ⟨#v[1, 2, 3, 4]⟩ 0x04030201 ∧
      q.model.ipLine toString 0x04030201 = some ((⟨#v[4, 3, 2, 1]⟩ : Ipv4Addr).display ++ " " ++ toString score) ∧
      q.model.ipLine toString 0x04030201 ≠ some ((⟨#v[1, 2, 3, 4]⟩ : Ipv4Addr).display ++ " " ++ toString score) := by
  obtain ⟨events, q, score, hrun, hscore, hkeyed⟩ := tracked_after_flood ⟨#v[1, 2, 3, 4]⟩
  refine ⟨events, q, score, hrun, hscore, hkeyed, ?_, ?_⟩
  · exact (IpSignerModel.ipLine_eq_iff hscore _).2 rfl
  · intro hline
    exact absurd ((IpSignerModel.ipLine_eq_iff hscore _).1 hline) (by decide)

/-- The line of 7.7.7.7 shows 7.7.7.7. -/
theorem saved_address_iff_sevens :
    ∃ events q score, run (call steadySdk ⟨16384, 16384, 1000⟩)
        (init steadySdk ⟨16384, 16384, 1000⟩ : QosState sortedTree scoreHeap)
        [.transactionPackets ((List.range 401).map (signedPacket ⟨#v[7, 7, 7, 7]⟩)),
          .remainingMetas (remainingFor 0 401)] = .ok (events, q) ∧
      sortedTree.get q.model.ip.score 0x07070707 = some score ∧
      KeyedBy steadySdk events.flatten ⟨#v[7, 7, 7, 7]⟩ 0x07070707 ∧
      q.model.ipLine toString 0x07070707 =
        some ((⟨#v[7, 7, 7, 7]⟩ : Ipv4Addr).display ++ " " ++ toString score) := by
  obtain ⟨events, q, score, hrun, hscore, hkeyed⟩ := tracked_after_flood ⟨#v[7, 7, 7, 7]⟩
  obtain ⟨-, hlines⟩ := saved_address_iff steadySdk _ _ events q hrun toString
  exact ⟨events, q, score, hrun, hscore, hkeyed, ((hlines _ score hscore).2 _ hkeyed).2 rfl⟩

end QosState

end Qos
