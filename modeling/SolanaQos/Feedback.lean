import SolanaQos.Process
import SolanaQos.ScoreMirror
/-!
# Penalties (`ip_feedback` and its two callers)

The model key of an address is its octets read little-endian: `QoSPartialMeta::new` scores under that key and
`process_failed_sigverify` penalises it.  The parser's penalty in `try_process_packet` goes to `to_bits`, the
big-endian reading, which is another address unless the octets are a palindrome.

`Penalises` says that the score of one key, and no other, is multiplied by 0.01.  A penalty filed under a key `used` is
the penalty of `key` if the two are the same, and otherwise only if neither filing shows: no score that the factor
would change is tracked under either (`penalises_iff`).  From it:
* the sigverify path penalises the key that the partial meta was stored under (`processFailedSigverify_penalises`);
* the parser's path does so exactly on a palindromic address, or where the scores at both keys do not move
  (`failedView_penalises_iff`).

A penalty reaches tracked addresses only: an address without an entry is scored by the median, which `ip_feedback`
leaves alone.  So a tracked sender's combined score falls by the factor on its own half (`sigverifyFeedback_lowers`),
and an untracked one's does not move (`sigverifyFeedback_misses_untracked`).
-/
namespace Qos

open Runs

variable {S : Sokoban} {F : Type} [LinearOrder F] {signers ips cacheSize sigCacheSize : Nat}

/-- `process_failed_sigverify`, the packet already read from its bytes. -/
def processFailedSigverify [Mul F] [OfScientific F] (packet : Packet) (model : IpSignerModel S F signers ips) :
    Except Panic (IpSignerModel S F signers ips) :=
  match packet.metadata.addr with
  | .v4 ip => .ok (model.ipFeedback (u32FromLeBytes ip.octets))
  | .v6 _ => .error .unreachable

theorem processFailedSigverify_ok [Mul F] [OfScientific F] {packet : Packet} {model model' : IpSignerModel S F signers ips}
    (h : processFailedSigverify packet model = .ok model') : ∃ ip, model' = model.ipFeedback ip := by
  unfold processFailedSigverify at h
  split at h
  · cases h
    exact ⟨_, rfl⟩
  · cases h

section Penalty

variable [Mul F] [OfScientific F]

/-- **The score of `key`, and no other, is multiplied by 0.01.** -/
def Penalises (before after : IpSignerModel S F signers ips) (key : UInt32) : Prop :=
  ∀ ip, S.get after.ip.score ip =
    if ip = key then (S.get before.ip.score ip).map (· * 0.01) else S.get before.ip.score ip

def Unmoved (model : IpSignerModel S F signers ips) (key : UInt32) : Prop :=
  ∀ s, S.get model.ip.score key = some s → s * 0.01 = s

theorem get_feedback {α : Type} [LinearOrder α] {m : Nat} (t : ScoreTable S F α m) (k k' : α) :
    S.get (t.feedback k).score k' = if k' = k then (S.get t.score k').map (· * 0.01) else S.get t.score k' := by
  unfold ScoreTable.feedback
  cases hk : S.get t.score k with
  | none =>
    by_cases hkk : k' = k
    · simp [hkk, hk]
    · simp [hkk]
  | some s =>
    simp only [ScoreTable.rescore]
    rw [S.get_set _ _ _ _ (by rw [hk]; rfl)]
    by_cases hkk : k' = k
    · simp [hkk, hk]
    · simp [hkk]

theorem ipFeedback_penalises (model : IpSignerModel S F signers ips) (key : UInt32) :
    Penalises model (model.ipFeedback key) key := get_feedback model.ip key

theorem map_unmoved {model : IpSignerModel S F signers ips} {key : UInt32} :
    (S.get model.ip.score key).map (· * 0.01) = S.get model.ip.score key ↔ Unmoved model key := by
  unfold Unmoved
  cases S.get model.ip.score key with
  | none => simp
  | some s => simp

/-- **A penalty filed under `used` is the penalty of `key`** when the keys agree or when there is nothing to move. -/
theorem penalises_iff (model : IpSignerModel S F signers ips) (used key : UInt32) :
    Penalises model (model.ipFeedback used) key ↔ used = key ∨ (Unmoved model key ∧ Unmoved model used) := by
  constructor
  · intro h
    by_cases hne : used = key
    · exact Or.inl hne
    · right
      have hkey := h key
      have hused := h used
      rw [ipFeedback_penalises, if_neg (Ne.symm hne), if_pos rfl] at hkey
      rw [ipFeedback_penalises, if_pos rfl, if_neg hne] at hused
      exact ⟨map_unmoved.1 hkey.symm, map_unmoved.1 hused⟩
  · rintro (rfl | ⟨hkey, hused⟩) ip
    · exact ipFeedback_penalises model used ip
    · rw [ipFeedback_penalises]
      by_cases hu : ip = used
      · rw [if_pos hu, hu, map_unmoved.2 hused]
        split <;> rfl
      · rw [if_neg hu]
        by_cases hk : ip = key
        · rw [if_pos hk, hk, map_unmoved.2 hkey]
        · rw [if_neg hk]

theorem processFailedSigverify_penalises {packet : Packet} {a : Ipv4Addr} (haddr : packet.metadata.addr = .v4 a)
    (model : IpSignerModel S F signers ips) (signer : Pubkey) (fee : UInt64) (cus : UInt32) :
    ∃ model', processFailedSigverify packet model = .ok model' ∧
      Penalises model model' (QoSPartialMeta.new a signer fee cus).ip := by
  unfold processFailedSigverify
  rw [haddr]
  exact ⟨_, rfl, ipFeedback_penalises model _⟩

variable [One F] [Div F] [NatCast F]

/-- **When the parser's penalty hits its sender**: exactly for palindromic addresses, or where neither reading of the
address is tracked with a score that the factor changes. -/
theorem failedView_penalises_iff {sdk : Sdk} {packet : Packet} {a : Ipv4Addr}
    {recentSignatures : Option (Lru.Cache UInt64 Unit sigCacheSize)} {model : IpSignerModel S F signers ips}
    {partialMetas : Lru.Cache UInt64 QoSPartialMeta cacheSize} {stats : Stats}
    {r : Processed S F signers ips cacheSize} (haddr : packet.metadata.addr = .v4 a)
    (hcall : tryProcessPacket sdk packet recentSignatures model partialMetas stats = .ok r)
    (hresult : r.result = .error .failedTransactionView) (signer : Pubkey) (fee : UInt64) (cus : UInt32) :
    Penalises model r.model (QoSPartialMeta.new a signer fee cus).ip ↔
      a.octets.toList.reverse = a.octets.toList ∨
        (Unmoved model (u32FromLeBytes a.octets) ∧ Unmoved model (u32FromBeBytes a.octets)) := by
  have hmodel : r.model = model.ipFeedback a.toBits := by
    cases tryProcessPacket_outcome hcall with
    | failedView ipv4 bytes haddr' hdata hparse =>
      rw [haddr] at haddr'
      cases haddr'
      rfl
    | _ => cases hresult
  rw [hmodel, penalises_iff]
  unfold Ipv4Addr.toBits QoSPartialMeta.new
  rw [u32FromBeBytes_eq_iff]

end Penalty

/-! ## Concrete penalties -/

/-- `Packet::data(..)`: nothing of a packet flagged as discarded, else the payload. -/
def undiscarded (packet : Packet) : Option (List UInt8) :=
  if packet.metadata.flags &&& 1 = 0 then some (packet.buffer.toList.take packet.metadata.size.toNat) else none

theorem undiscarded_eq {packet : Packet} {bytes : List UInt8} (h : undiscarded packet = some bytes) :
    bytes = packet.buffer.toList.take packet.metadata.size.toNat := by
  unfold undiscarded at h
  split at h
  · exact (Option.some.inj h).symm
  · cases h

/-- A parser that accepts nothing: what any parser does on an empty payload. -/
def refusingSdk : Sdk where
  Unsanitized := Empty
  data := undiscarded
  tryNewUnsanitized := fun _ => none
  sanitize := Empty.elim
  computeBudgetId := ⟨Vector.replicate 32 0⟩
  hash := fun _ => 0
  ticksPerMs := 1
  tsc := UInt64.ofNat
  data_eq := fun _ _ => undiscarded_eq

def emptyPacket (a : Ipv4Addr) : Packet := ⟨Vector.replicate packetDataSize 0, ⟨0, .v4 a, 0, 0⟩⟩

def someSigner : Pubkey := ⟨Vector.replicate 32 0⟩

def fiveFrom (ip : UInt32) : List (QoSTransactionMeta ℚ) := List.replicate 5 ⟨ip, someSigner, 3⟩

theorem fiveFrom_tracked (ip : UInt32)
    (h : ((run IpSignerModel.step (IpSignerModel.new [] [] : IpSignerModel sortedTree ℚ 16384 16384)
      [.updateModel (fiveFrom ip) 16 16]).toOption.map fun r =>
        (sortedTree.get r.2.ip.score ip, r.2.forward ip someSigner)) = some (some 3, 9)) :
    ∃ os model, run IpSignerModel.step (IpSignerModel.new [] [] : IpSignerModel sortedTree ℚ 16384 16384)
      [.updateModel (fiveFrom ip) 16 16] = .ok (os, model) ∧ sortedTree.get model.ip.score ip = some 3 ∧
      model.forward ip someSigner = 9 := by
  obtain ⟨⟨os, model⟩, hok, hget⟩ := Option.map_eq_some_iff.1 h
  exact ⟨os, model, ok_of_toOption hok, (Prod.mk.inj hget).1, (Prod.mk.inj hget).2⟩

/-- A palindromic sender is hit. -/
theorem failedView_penalises_palindrome :
    ∃ os model r, run IpSignerModel.step (IpSignerModel.new [] [] : IpSignerModel sortedTree ℚ 16384 16384)
        [.updateModel (fiveFrom (u32FromLeBytes #v[7, 7, 7, 7])) 16 16] = .ok (os, model) ∧
      tryProcessPacket refusingSdk (emptyPacket ⟨#v[7, 7, 7, 7]⟩) (none : Option (Lru.Cache UInt64 Unit 1)) model
        (Lru.Cache.new (by decide) : Lru.Cache UInt64 QoSPartialMeta 1) {} = .ok r ∧
      r.result = .error .failedTransactionView ∧
      Penalises model r.model (QoSPartialMeta.new ⟨#v[7, 7, 7, 7]⟩ someSigner 0 0).ip := by
  obtain ⟨os, model, e, -⟩ := fiveFrom_tracked (u32FromLeBytes #v[7, 7, 7, 7]) (by decide +kernel)
  obtain ⟨r, hcall, hresult⟩ : ∃ r, tryProcessPacket refusingSdk (emptyPacket ⟨#v[7, 7, 7, 7]⟩)
      (none : Option (Lru.Cache UInt64 Unit 1)) model (Lru.Cache.new (by decide) : Lru.Cache UInt64 QoSPartialMeta 1)
      {} = .ok r ∧ r.result = .error .failedTransactionView := ⟨_, rfl, rfl⟩
  have haddr : (emptyPacket ⟨#v[7, 7, 7, 7]⟩).metadata.addr = .v4 ⟨#v[7, 7, 7, 7]⟩ := rfl
  exact ⟨os, model, r, e, hcall, hresult,
    (failedView_penalises_iff haddr hcall hresult someSigner 0 0).2 (Or.inl (by decide))⟩

/-- The sender 1.2.3.4 is tracked and keeps its score: the penalty went to 4.3.2.1. -/
theorem failedView_misses_sender :
    ∃ os model r, run IpSignerModel.step (IpSignerModel.new [] [] : IpSignerModel sortedTree ℚ 16384 16384)
        [.updateModel (fiveFrom (u32FromLeBytes #v[1, 2, 3, 4])) 16 16] = .ok (os, model) ∧
      tryProcessPacket refusingSdk (emptyPacket ⟨#v[1, 2, 3, 4]⟩) (none : Option (Lru.Cache UInt64 Unit 1)) model
        (Lru.Cache.new (by decide) : Lru.Cache UInt64 QoSPartialMeta 1) {} = .ok r ∧
      r.result = .error .failedTransactionView ∧
      ¬ Penalises model r.model (QoSPartialMeta.new ⟨#v[1, 2, 3, 4]⟩ someSigner 0 0).ip := by
  obtain ⟨os, model, e, htracked, -⟩ := fiveFrom_tracked (u32FromLeBytes #v[1, 2, 3, 4]) (by decide +kernel)
  refine ⟨os, model, _, e, rfl, rfl, fun h => ?_⟩
  rcases (penalises_iff model _ _).1 h with hkeys | ⟨hkey, -⟩
  · exact absurd hkeys (by decide)
  · exact absurd (hkey 3 htracked) (by norm_num)

/-! ## Feedback on the combined score -/

theorem forward_ipFeedback [One F] [Mul F] [OfScientific F] {model : IpSignerModel S F signers ips} {ip : UInt32}
    {s : F} (h : S.get model.ip.score ip = some s) (signer : Pubkey) :
    model.forward ip signer =
        s * (S.get model.signer.score signer).getD model.approximateMedianSignerScore ∧
      (model.ipFeedback ip).forward ip signer =
        s * 0.01 * (S.get model.signer.score signer).getD model.approximateMedianSignerScore := by
  have hafter : S.get (model.ipFeedback ip).ip.score ip = some (s * 0.01) := by
    rw [ipFeedback_penalises, if_pos rfl, h]
    rfl
  unfold IpSignerModel.forward
  rw [h, hafter]
  exact ⟨rfl, rfl⟩

/-- **Sigverify feedback lowers the score of a tracked sender** for every signer that gives it a positive one, and
leaves the model alone when the sender is not tracked. -/
theorem sigverifyFeedback_lowers {packet : Packet} {a : Ipv4Addr} (haddr : packet.metadata.addr = .v4 a)
    (model : IpSignerModel S ℚ signers ips) (signer : Pubkey) :
    ∃ model', processFailedSigverify packet model = .ok model' ∧
      ((S.get model.ip.score (u32FromLeBytes a.octets)).isSome → 0 < model.forward (u32FromLeBytes a.octets) signer →
        model'.forward (u32FromLeBytes a.octets) signer < model.forward (u32FromLeBytes a.octets) signer) ∧
      (S.get model.ip.score (u32FromLeBytes a.octets) = none → model' = model) := by
  refine ⟨model.ipFeedback (u32FromLeBytes a.octets), ?_, ?_, ?_⟩
  · unfold processFailedSigverify
    rw [haddr]
  · intro htracked hpos
    obtain ⟨s, hs⟩ := Option.isSome_iff_exists.1 htracked
    obtain ⟨hbefore, hafter⟩ := forward_ipFeedback hs signer
    rw [hbefore] at hpos ⊢
    rw [hafter]
    generalize (S.get model.signer.score signer).getD model.approximateMedianSignerScore = g at hpos
    calc s * 0.01 * g = s * g * 0.01 := by ring
      _ < s * g * 1 := by gcongr; norm_num
      _ = s * g := mul_one _
  · intro huntracked
    unfold IpSignerModel.ipFeedback ScoreTable.feedback
    rw [huntracked]

/-- A tracked sender that scores 9 with its signer. -/
theorem sigverifyFeedback_lowers_tracked :
    ∃ os model model', run IpSignerModel.step (IpSignerModel.new [] [] : IpSignerModel sortedTree ℚ 16384 16384)
        [.updateModel (fiveFrom (u32FromLeBytes #v[1, 2, 3, 4])) 16 16] = .ok (os, model) ∧
      processFailedSigverify (emptyPacket ⟨#v[1, 2, 3, 4]⟩) model = .ok model' ∧
      model.forward (u32FromLeBytes #v[1, 2, 3, 4]) someSigner = 9 ∧
      model'.forward (u32FromLeBytes #v[1, 2, 3, 4]) someSigner < 9 := by
  obtain ⟨os, model, e, htracked, hforward⟩ :=
    fiveFrom_tracked (u32FromLeBytes #v[1, 2, 3, 4]) (by decide +kernel)
  have haddr : (emptyPacket ⟨#v[1, 2, 3, 4]⟩).metadata.addr = .v4 ⟨#v[1, 2, 3, 4]⟩ := rfl
  obtain ⟨model', e', hlower, -⟩ := sigverifyFeedback_lowers haddr model someSigner
  refine ⟨os, model, model', e, e', hforward, ?_⟩
  rw [← hforward]
  exact hlower (by rw [htracked]; rfl) (by rw [hforward]; norm_num)

/-- The empty model scores every sender 1, before and after the feedback. -/
theorem sigverifyFeedback_misses_untracked :
    ∃ model', processFailedSigverify (emptyPacket ⟨#v[1, 2, 3, 4]⟩)
        (IpSignerModel.new [] [] : IpSignerModel sortedTree ℚ 16384 16384) = .ok model' ∧
      0 < (IpSignerModel.new [] [] : IpSignerModel sortedTree ℚ 16384 16384).forward
        (u32FromLeBytes #v[1, 2, 3, 4]) someSigner ∧
      ¬ model'.forward (u32FromLeBytes #v[1, 2, 3, 4]) someSigner <
        (IpSignerModel.new [] [] : IpSignerModel sortedTree ℚ 16384 16384).forward
          (u32FromLeBytes #v[1, 2, 3, 4]) someSigner :=
  ⟨_, rfl, by decide +kernel, by decide +kernel⟩

end Qos
