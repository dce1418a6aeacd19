import SolanaQos.Generator
import SolanaQos.Process
/-!
# The mock banking stage (`mockBanking` in `engine-ipc/src/main.rs`)

Behind the qos loop the demo runs one thread that plays sigverify and scheduler.  One turn of it pops a transmitted
packet, if there is one (`turn`):

* a packet whose buffer ends in a byte other than zero goes back as badly signed;
* any other is parsed, and on three of four low bytes of its hash reported as not scheduled, with no execution time;
* else it is reported with an execution time drawn from the hash, and its first signature goes to the status cache.

The stage computes the hash and parses without checks, relying on qos to pass on only what it has parsed itself.  On
such packets it meets none of its panics (`signal_readable`), and each is counted once and by its end
(`turn_readable`).

Its counters reach the shared ones in blocks: whenever the count of received packets is a multiple of 32768, zero
included, all three are handed over and start again (`flush`).  `Tallied` is what the shared and the private counters
make together; the counters are natural numbers here, where the source's wrap.

The file of the stage is written as the generators write theirs, by the same `logPrice`.
-/
namespace Qos

open Runs

/-- The mock stage reads the signatures of views that it does not sanitize. -/
structure MockSdk extends Sdk where
  signatures : Unsanitized → List Signature
  sanitize_signatures : ∀ unsanitized view, sanitize unsanitized = some view → view.signatures = signatures unsanitized

structure EngineStats where
  tpuSends : Nat := 0
  fwdSends : Nat := 0
  sigverifyRecvs : Nat := 0
  sigverifySends : Nat := 0
  schedulerSends : Nat := 0

structure MockBanking where
  received : Nat := 0
  failed : Nat := 0
  sched : Nat := 0
  i : Nat := 0
  file : PriceFile := .create

structure Pushes where
  sigToQos : List Packet := []
  schToQos : List QoSRemainingMeta := []
  statusCache : List Signature := []

/-- Not scheduled on three of four low bytes of the hash. -/
def unscheduled (packetHash : UInt64) : Bool := packetHash.toUInt8 < 192

def mockNanos (packetHash : UInt64) : UInt64 :=
  if unscheduled packetHash then 0 else (packetHash &&& (1024 * 1024 - 1)) + 1

namespace MockBanking

def signal (sdk : MockSdk) (b : MockBanking) (packet : Packet) : Except Panic (Pushes × MockBanking) := do
  let packetHash ← packetHash sdk.toSdk packet
  if packet.last ≠ 0 then
    return ({ sigToQos := [packet] }, { b with received := b.received + 1, failed := b.failed + 1 })
  else
    match sdk.data packet with
    | none => .error .unwrapNone
    | some bytes =>
      match sdk.tryNewUnsanitized bytes with
      | none => .error .unwrapNone
      | some txView =>
        let remainingMeta : QoSRemainingMeta := ⟨packetHash, 0⟩
        if unscheduled packetHash then
          return ({ schToQos := [remainingMeta] }, { b with received := b.received + 1 })
        else
          let remainingMeta := { remainingMeta with executionNanos := (packetHash &&& (1024 * 1024 - 1)) + 1 }
          match (sdk.signatures txView)[0]? with
          | none => .error .outOfBounds
          | some signature =>
            return ({ schToQos := [remainingMeta], statusCache := [signature] },
              { b with received := b.received + 1, sched := b.sched + 1 })

def record (writeToFile : Bool) (b : MockBanking) (packet : Packet) : Except Panic MockBanking := do
  let file ← logPrice writeToFile b.i b.file packet
  return { b with i := b.i + 1, file := file }

/-- The counters go to the shared ones whenever the count of received packets is a multiple of 32768. -/
def flush (b : MockBanking) (stats : EngineStats) : MockBanking × EngineStats :=
  if b.received &&& (32 * 1024 - 1) = 0 then
    ({ b with received := 0, failed := 0, sched := 0 }, { stats with
      sigverifyRecvs := stats.sigverifyRecvs + b.received
      sigverifySends := stats.sigverifySends + b.failed
      schedulerSends := stats.schedulerSends + b.sched })
  else (b, stats)

def turn (sdk : MockSdk) (writeToFile : Bool) (b : MockBanking) (stats : EngineStats) (popped : Option Packet) :
    Except Panic (Pushes × MockBanking × EngineStats) :=
  match popped with
  | none => return ({}, b.flush stats)
  | some packet => do
    let (pushes, b) ← b.signal sdk packet
    let b ← b.record writeToFile packet
    return (pushes, b.flush stats)

/-! ## What a turn does -/

/-- **The ends of a turn with a readable packet**, before the counters are handed over. -/
inductive Signalled (sdk : MockSdk) (packet : Packet) (view : TransactionView) (hash : UInt64) : Pushes → Nat → Nat → Prop
  | failed (hlast : packet.last ≠ 0) : Signalled sdk packet view hash { sigToQos := [packet] } 1 0
  | unscheduled (hlast : packet.last = 0) (hsched : unscheduled hash = true) :
    Signalled sdk packet view hash { schToQos := [⟨hash, 0⟩] } 0 0
  | scheduled (hlast : packet.last = 0) (hsched : unscheduled hash = false) :
    Signalled sdk packet view hash
      { schToQos := [⟨hash, mockNanos hash⟩], statusCache := [view.firstSignature] } 0 1

theorem signal_readable {sdk : MockSdk} {packet : Packet} {ipv4 : Ipv4Addr} {view : TransactionView}
    (h : Readable sdk.toSdk packet ipv4 view) (b : MockBanking) :
    ∃ hash pushes failed sched, packetHash sdk.toSdk packet = .ok hash ∧
      Signalled sdk packet view hash pushes failed sched ∧
      b.signal sdk packet = .ok (pushes,
        { b with received := b.received + 1, failed := b.failed + failed, sched := b.sched + sched }) := by
  obtain ⟨hash, hhash⟩ : ∃ hash, packetHash sdk.toSdk packet = .ok hash := by
    rw [packetHash, preimage_eq h.addr h.size]
    exact ⟨_, rfl⟩
  obtain ⟨bytes, hdata, hparse⟩ := Option.bind_eq_some_iff.1 h.view
  obtain ⟨unsanitized, hnew, hsan⟩ := Option.bind_eq_some_iff.1 hparse
  have hsigs := sdk.sanitize_signatures unsanitized view hsan
  have hfirst : (sdk.signatures unsanitized)[0]? = some view.firstSignature := by
    rw [← hsigs, List.getElem?_eq_getElem view.signed]
    rfl
  unfold signal
  rw [hhash, ok_bind]
  by_cases hlast : packet.last = 0
  · simp only [hlast, ne_eq, not_true, if_false, hdata, hnew]
    cases hsched : unscheduled hash with
    | true => exact ⟨hash, _, 0, 0, rfl, .unscheduled hlast hsched, rfl⟩
    | false =>
      refine ⟨hash, _, 0, 1, rfl, .scheduled hlast hsched, ?_⟩
      simp only [Bool.false_eq_true, if_false, hfirst, mockNanos, hsched]
      rfl
  · exact ⟨hash, _, 1, 0, rfl, .failed hlast, by rw [if_pos hlast]; rfl⟩

theorem record_ok (packet : Packet) (writeToFile : Bool) (b : MockBanking) :
    ∃ file, b.record writeToFile packet = .ok { b with i := b.i + 1, file := file } := by
  obtain ⟨price, hprice⟩ : ∃ price, readPrice packet = .ok price := by
    unfold readPrice readUnaligned
    rw [if_pos (by rw [Vector.length_toList]; decide)]
    exact ⟨_, rfl⟩
  unfold record logPrice
  split
  · exact ⟨_, by rw [hprice, ok_bind]; rfl⟩
  · exact ⟨b.file, rfl⟩

/-- What the shared counters and those still in the thread make together. -/
structure Tallied (b : MockBanking) (stats : EngineStats) (received failed sched : Nat) : Prop where
  received : stats.sigverifyRecvs + b.received = received
  failed : stats.sigverifySends + b.failed = failed
  sched : stats.schedulerSends + b.sched = sched
  bound : b.failed + b.sched ≤ b.received
  room : b.received < 32768
  blocks : 32768 ∣ stats.sigverifyRecvs
  shared : stats.sigverifySends + stats.schedulerSends ≤ stats.sigverifyRecvs

theorem and_blocks (n : Nat) : n &&& (32 * 1024 - 1) = n % 32768 := Nat.and_two_pow_sub_one_eq_mod n 15

theorem flush_tallied {b : MockBanking} {stats : EngineStats} {received failed sched : Nat}
    (hreceived : stats.sigverifyRecvs + b.received = received) (hfailed : stats.sigverifySends + b.failed = failed)
    (hsched : stats.schedulerSends + b.sched = sched) (hbound : b.failed + b.sched ≤ b.received)
    (hroom : b.received ≤ 32768) (hblocks : 32768 ∣ stats.sigverifyRecvs)
    (hshared : stats.sigverifySends + stats.schedulerSends ≤ stats.sigverifyRecvs) :
    Tallied (b.flush stats).1 (b.flush stats).2 received failed sched := by
  unfold flush
  rw [and_blocks]
  by_cases hzero : b.received % 32768 = 0
  · rw [if_pos hzero]
    refine ⟨?_, ?_, ?_, ?_, ?_, ?_, ?_⟩
    · simpa using hreceived
    · simpa using hfailed
    · simpa using hsched
    · simp
    · simp
    · exact Nat.dvd_add hblocks (Nat.dvd_of_mod_eq_zero hzero)
    · simp only
      omega
  · rw [if_neg hzero]
    have hlt : b.received < 32768 := by
      rcases Nat.lt_or_eq_of_le hroom with h | h
      · exact h
      · rw [h] at hzero
        exact absurd (Nat.mod_self _) hzero
    exact ⟨hreceived, hfailed, hsched, hbound, hlt, hblocks, hshared⟩

theorem turn_readable {sdk : MockSdk} {packet : Packet} {ipv4 : Ipv4Addr} {view : TransactionView}
    (h : Readable sdk.toSdk packet ipv4 view) (writeToFile : Bool) {b : MockBanking} {stats : EngineStats}
    {received failed sched : Nat} (ht : Tallied b stats received failed sched) :
    ∃ hash pushes f s b' stats', packetHash sdk.toSdk packet = .ok hash ∧
      Signalled sdk packet view hash pushes f s ∧
      b.turn sdk writeToFile stats (some packet) = .ok (pushes, b', stats') ∧
      Tallied b' stats' (received + 1) (failed + f) (sched + s) := by
  obtain ⟨hash, pushes, f, s, hhash, hsignal, hturn⟩ := signal_readable h b
  obtain ⟨file, hrecord⟩ := record_ok packet writeToFile
    { b with received := b.received + 1, failed := b.failed + f, sched := b.sched + s }
  have hone : f + s ≤ 1 := by cases hsignal <;> decide
  generalize hb₁ : (⟨b.received + 1, b.failed + f, b.sched + s, b.i + 1, file⟩ : MockBanking) = b₁ at hrecord
  have htallied : Tallied (b₁.flush stats).1 (b₁.flush stats).2 (received + 1) (failed + f) (sched + s) := by
    obtain ⟨hreceived, hfailed, hsched, hbound, hroom, hblocks, hshared⟩ := ht
    subst hb₁
    exact flush_tallied (by simp only; omega) (by simp only; omega) (by simp only; omega) (by simp only; omega)
      (by simp only; omega) hblocks hshared
  refine ⟨hash, pushes, f, s, _, _, hhash, hsignal, ?_, htallied⟩
  unfold turn
  simp only [hturn, ok_bind, hrecord]
  rfl

theorem turn_idle (sdk : MockSdk) (writeToFile : Bool) {b : MockBanking} {stats : EngineStats}
    {received failed sched : Nat} (ht : Tallied b stats received failed sched) :
    ∃ b' stats', b.turn sdk writeToFile stats none = .ok ({}, b', stats') ∧ Tallied b' stats' received failed sched :=
  ⟨_, _, rfl, flush_tallied ht.received ht.failed ht.sched ht.bound ht.room.le ht.blocks ht.shared⟩

end MockBanking

end Qos
