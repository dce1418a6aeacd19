import SolanaQos.Bytes
import SolanaQos.Crates
import SolanaQos.Runs
import SolanaQos.Score
/-!
# Packets, their keys and their fees

The wire data of the pipeline (`internal-common`, and the fee scan of `qos-core/src/lib.rs`).  A packet is a fixed
buffer with a header, its hash is taken over the payload, the size and the source address, its partial meta is keyed by
the address read little-endian.

Packet access, transaction parsing, the hash function and the time stamp counter belong to other crates and to the
machine; `Sdk` collects them, with the one law that is relied on: what a packet yields is the front of its buffer.  A
view of a transaction is what the parser makes of a payload; its fields are lists, and at least one of them, the
signatures, is never empty.

* `preimage` writes the payload, the size and the address one behind the other into a buffer, with unchecked copies; it
  succeeds on every IPv4 packet whose size the buffer admits (`preimage_eq`).  It identifies payload, size and address
  (`preimage_identifies`): the size stands in eight bytes behind the payload, so no payload can pose as another's end.
* `totalFee` reads limits and prices from instruction data with `read_unaligned`; every read is in bounds
  (`totalFee_total`).  What the scan computes is the matter of the module on fees.

The machine words of the source are `UInt64` and `UInt32` here, so the arithmetic wraps where the source's does in
release builds.  `f64` values are elements of a type with the operations they need; the heap over them orders by score
only.
-/
namespace Qos

open Runs

def packetDataSize : Nat := 1232

structure Ipv4Addr where
  octets : Vector UInt8 4
  deriving DecidableEq

theorem Ipv4Addr.octets_injective : Function.Injective Ipv4Addr.octets := by
  rintro ⟨v⟩ ⟨w⟩ h
  exact congrArg Ipv4Addr.mk h

def Ipv4Addr.toBits (a : Ipv4Addr) : UInt32 := u32FromBeBytes a.octets

inductive IpAddr
  | v4 (addr : Ipv4Addr)
  | v6 (octets : Vector UInt8 16)
  deriving DecidableEq

structure Metadata where
  size : UInt64
  addr : IpAddr
  port : UInt16
  flags : UInt8
  deriving DecidableEq

structure Packet where
  buffer : Vector UInt8 packetDataSize
  metadata : Metadata
  deriving DecidableEq

abbrev Signature := Vector UInt8 64

def u64Key (signature : Signature) : UInt64 :=
  u64FromLeBytes (Vector.ofFn fun i : Fin 8 =>
    ((signature.toList.drop (8 * i.val)).take 8).foldl (fun a b => a ^^^ b) 0)

/-- An instruction of a view; its accounts are not read. -/
structure Instruction where
  programIdIndex : UInt8
  data : List UInt8

/-- A sanitized view.  Sanitizing leaves no transaction without a signature. -/
structure TransactionView where
  signatures : List Signature
  staticAccountKeys : List Pubkey
  instructions : List Instruction
  signed : 0 < signatures.length

def TransactionView.firstSignature (view : TransactionView) : Signature := view.signatures.get ⟨0, view.signed⟩

def TransactionView.feePayer (view : TransactionView) : Option Pubkey := view.staticAccountKeys[0]?

/-- **What the program takes from other crates and from the machine.**  `tsc n` is the `n`-th reading of the time stamp
counter. -/
structure Sdk where
  Unsanitized : Type
  data : Packet → Option (List UInt8)
  tryNewUnsanitized : List UInt8 → Option Unsanitized
  sanitize : Unsanitized → Option TransactionView
  computeBudgetId : Pubkey
  hash : List UInt8 → UInt64
  ticksPerMs : UInt64
  tsc : Nat → UInt64
  data_eq : ∀ packet bytes, data packet = some bytes →
    bytes = packet.buffer.toList.take packet.metadata.size.toNat

/-! ## `packet_hash` -/

def copyTo (buf : List UInt8) (offset : Nat) (bytes : List UInt8) : Except Panic (List UInt8) :=
  if offset + bytes.length ≤ buf.length then
    .ok (buf.take offset ++ bytes ++ buf.drop (offset + bytes.length))
  else
    .error .outOfBounds

def getUncheckedTo (buf : List UInt8) (len : Nat) : Except Panic (List UInt8) :=
  if len ≤ buf.length then .ok (buf.take len) else .error .outOfBounds

/-- `usize::to_le_bytes`. -/
def u64ToLeBytes (x : UInt64) : List UInt8 := (List.range 8).map fun i => UInt8.ofNat (x.toNat / 256 ^ i)

def writePacketMetaBytes (preimage : List UInt8) (offset : Nat) (metadata : Metadata) : Except Panic (List UInt8) :=
  match metadata.addr with
  | .v4 ipv4 => do
    let preimage ← copyTo preimage offset (u64ToLeBytes metadata.size)
    copyTo preimage (offset + 8) ipv4.octets.toList
  | .v6 _ => .error .unreachable

def preimage (packet : Packet) : Except Panic (List UInt8) := do
  let size := packet.metadata.size.toNat
  let payload ← getUncheckedTo packet.buffer.toList size
  let buf ← copyTo (List.replicate (packetDataSize + 12) 0) 0 payload
  let buf ← writePacketMetaBytes buf size packet.metadata
  getUncheckedTo buf (size + 12)

def packetHash (sdk : Sdk) (packet : Packet) : Except Panic UInt64 := do return sdk.hash (← preimage packet)

theorem copyTo_append (pre rest bytes : List UInt8) {offset : Nat} (hoff : offset = pre.length)
    (hlen : bytes.length ≤ rest.length) :
    copyTo (pre ++ rest) offset bytes = .ok (pre ++ bytes ++ rest.drop bytes.length) := by
  subst hoff
  unfold copyTo
  rw [if_pos (by rw [List.length_append]; omega), List.take_left, List.drop_append, Nat.add_sub_cancel_left,
    List.drop_eq_nil_of_le (by omega), List.nil_append]

theorem u64ToLeBytes_length (x : UInt64) : (u64ToLeBytes x).length = 8 := by simp [u64ToLeBytes]

/-- **The preimage of an admissible packet** is its payload, its size and its source address; no copy leaves the
buffer. -/
theorem preimage_eq {packet : Packet} {ipv4 : Ipv4Addr} (haddr : packet.metadata.addr = .v4 ipv4)
    (hsize : packet.metadata.size.toNat ≤ packetDataSize) :
    preimage packet = .ok (packet.buffer.toList.take packet.metadata.size.toNat ++
      u64ToLeBytes packet.metadata.size ++ ipv4.octets.toList) := by
  have hslice : getUncheckedTo packet.buffer.toList packet.metadata.size.toNat =
      .ok (packet.buffer.toList.take packet.metadata.size.toNat) := if_pos (by simpa using hsize)
  have hpay : (packet.buffer.toList.take packet.metadata.size.toNat).length = packet.metadata.size.toNat := by
    simpa using hsize
  have hle := u64ToLeBytes_length packet.metadata.size
  have hip : ipv4.octets.toList.length = 4 := by simp
  unfold preimage writePacketMetaBytes
  simp only [haddr, hslice, ok_bind]
  generalize packet.metadata.size.toNat = size at hsize hpay
  generalize u64ToLeBytes packet.metadata.size = le at hle
  generalize packet.buffer.toList.take size = pay at hpay
  generalize ipv4.octets.toList = ip at hip
  -- the three copies, each behind the one before
  have h₁ : copyTo (List.replicate (packetDataSize + 12) 0) 0 pay =
      .ok (pay ++ List.replicate (packetDataSize + 12 - pay.length) 0) := by
    rw [← List.drop_replicate]
    exact copyTo_append [] (List.replicate (packetDataSize + 12) 0) pay rfl (by rw [List.length_replicate]; omega)
  have h₂ := copyTo_append pay (List.replicate (packetDataSize + 12 - pay.length) 0) le hpay.symm
    (by rw [List.length_replicate]; omega)
  rw [List.drop_replicate] at h₂
  have hoff : size + 8 = (pay ++ le).length := by rw [List.length_append]; omega
  have h₃ := copyTo_append (pay ++ le) (List.replicate (packetDataSize + 12 - pay.length - le.length) 0) ip hoff
    (by rw [List.length_replicate]; omega)
  rw [h₁, ok_bind, h₂, ok_bind, h₃, ok_bind]
  have hlen : (pay ++ le ++ ip).length = size + 12 := by simp only [List.length_append]; omega
  unfold getUncheckedTo
  rw [if_pos (by rw [List.length_append, hlen]; omega), ← hlen, List.take_left]

theorem preimage_length {packet : Packet} {ipv4 : Ipv4Addr} (hsize : packet.metadata.size.toNat ≤ packetDataSize) :
    (packet.buffer.toList.take packet.metadata.size.toNat ++ u64ToLeBytes packet.metadata.size ++
      ipv4.octets.toList).length = packet.metadata.size.toNat + 12 := by
  rw [List.length_append, List.length_append, List.length_take, u64ToLeBytes_length, Vector.length_toList,
    Vector.length_toList, min_eq_left hsize]

/-- The suffix behind a payload has one width, so the payload and the address can be told from the whole. -/
theorem suffixed_inj {payload payload' : List UInt8} {size size' : UInt64} {ipv4 ipv4' : Ipv4Addr}
    (h : payload ++ u64ToLeBytes size ++ ipv4.octets.toList = payload' ++ u64ToLeBytes size' ++ ipv4'.octets.toList) :
    payload = payload' ∧ ipv4 = ipv4' := by
  obtain ⟨hfront, hip⟩ := List.append_inj' h (by rw [Vector.length_toList, Vector.length_toList])
  obtain ⟨hpayload, -⟩ := List.append_inj' hfront (by rw [u64ToLeBytes_length, u64ToLeBytes_length])
  exact ⟨hpayload, Ipv4Addr.octets_injective (Vector.toList_inj.1 hip)⟩

/-- **The preimage identifies a packet.**  The suffix has no frame, but its width is fixed, so the length of the slice
gives the size away. -/
theorem preimage_identifies {packet packet' : Packet} {ipv4 ipv4' : Ipv4Addr} (haddr : packet.metadata.addr = .v4 ipv4)
    (haddr' : packet'.metadata.addr = .v4 ipv4') (hsize : packet.metadata.size.toNat ≤ packetDataSize)
    (hsize' : packet'.metadata.size.toNat ≤ packetDataSize) :
    ∃ bytes bytes', preimage packet = .ok bytes ∧ preimage packet' = .ok bytes' ∧
      bytes.length = packet.metadata.size.toNat + 12 ∧ bytes'.length = packet'.metadata.size.toNat + 12 ∧
      (bytes = bytes' ↔ packet.metadata.size = packet'.metadata.size ∧
        packet.buffer.toList.take packet.metadata.size.toNat =
          packet'.buffer.toList.take packet'.metadata.size.toNat ∧
        packet.metadata.addr = packet'.metadata.addr) := by
  have hlen := @preimage_length packet ipv4 hsize
  have hlen' := @preimage_length packet' ipv4' hsize'
  refine ⟨_, _, preimage_eq haddr hsize, preimage_eq haddr' hsize', hlen, hlen', ?_⟩
  rw [haddr, haddr']
  constructor
  · intro h
    have hn : packet.metadata.size.toNat = packet'.metadata.size.toNat := by
      have := congrArg List.length h
      rw [hlen, hlen'] at this
      exact Nat.add_right_cancel this
    obtain ⟨hpay, hip⟩ := suffixed_inj h
    exact ⟨UInt64.toNat_inj.1 hn, hpay, congrArg IpAddr.v4 hip⟩
  · rintro ⟨hs, hpay, hip⟩
    injection hip with hip
    rw [hpay, hs, hip]

theorem twoBytes_size (x y rest : UInt8) : (x :: y :: List.replicate 1230 rest).toArray.size = packetDataSize := by
  rw [List.size_toArray, List.length_cons, List.length_cons, List.length_replicate]
  rfl

def twoBytes (x y rest : UInt8) : Vector UInt8 packetDataSize :=
  ⟨(x :: y :: List.replicate 1230 rest).toArray, twoBytes_size x y rest⟩

/-- Bytes beyond the payload, another port and another flag leave the preimage alone; another payload does not. -/
theorem preimage_identifies_trailing :
    ∃ bytes bytes' bytes'',
      preimage ⟨twoBytes 7 8 0, ⟨2, .v4 ⟨#v[1, 2, 3, 4]⟩, 1, 0⟩⟩ = .ok bytes ∧
      preimage ⟨twoBytes 7 8 9, ⟨2, .v4 ⟨#v[1, 2, 3, 4]⟩, 2, 5⟩⟩ = .ok bytes' ∧
      preimage ⟨twoBytes 7 9 0, ⟨2, .v4 ⟨#v[1, 2, 3, 4]⟩, 1, 0⟩⟩ = .ok bytes'' ∧
      bytes.length = 2 + 12 ∧ bytes = bytes' ∧ bytes ≠ bytes'' := by
  obtain ⟨bytes, bytes', h, h', hlen, -, hiff⟩ := @preimage_identifies
    ⟨twoBytes 7 8 0, ⟨2, .v4 ⟨#v[1, 2, 3, 4]⟩, 1, 0⟩⟩ ⟨twoBytes 7 8 9, ⟨2, .v4 ⟨#v[1, 2, 3, 4]⟩, 2, 5⟩⟩
    ⟨#v[1, 2, 3, 4]⟩ ⟨#v[1, 2, 3, 4]⟩ rfl rfl (by decide) (by decide)
  obtain ⟨bytes₁, bytes'', h₁, h'', -, -, hiff'⟩ := @preimage_identifies
    ⟨twoBytes 7 8 0, ⟨2, .v4 ⟨#v[1, 2, 3, 4]⟩, 1, 0⟩⟩ ⟨twoBytes 7 9 0, ⟨2, .v4 ⟨#v[1, 2, 3, 4]⟩, 1, 0⟩⟩
    ⟨#v[1, 2, 3, 4]⟩ ⟨#v[1, 2, 3, 4]⟩ rfl rfl (by decide) (by decide)
  cases h.symm.trans h₁
  refine ⟨bytes, bytes', bytes'', h, h', h'', hlen, hiff.2 ⟨rfl, rfl, rfl⟩, fun heq => ?_⟩
  have hpayload : [7, 8] = [(7 : UInt8), 9] := (hiff'.1 heq).2.1
  exact absurd hpayload (by decide)

/-! ## `total_fee` -/

structure CaveyTransactionFee where
  cuPrice : UInt64
  totalFee : UInt64
  requestedCus : UInt32

/-- `ptr::read_unaligned` of `len` bytes of instruction data. -/
def readUnaligned (data : List UInt8) (offset len : Nat) : Except Panic (List UInt8) :=
  if offset + len ≤ data.length then .ok ((data.drop offset).take len) else .error .outOfBounds

/-- One compute budget instruction: the first limit and the first price count. -/
def scanInstruction (acc : Option UInt32 × Option UInt64) (cbi : Instruction) :
    Except Panic (Option UInt32 × Option UInt64) :=
  if cbi.data.length = 5 ∧ cbi.data[0]? = some 0x2 then
    match acc.1 with
    | some _ => .ok acc
    | none => do return (some (UInt32.ofNat (leNat (← readUnaligned cbi.data 1 4))), acc.2)
  else if cbi.data.length = 9 ∧ cbi.data[0]? = some 0x3 then
    match acc.2 with
    | some _ => .ok acc
    | none => do return (acc.1, some (UInt64.ofNat (leNat (← readUnaligned cbi.data 1 8))))
  else
    .ok acc

def totalFee (sdk : Sdk) (view : TransactionView) : Except Panic CaveyTransactionFee := do
  let firstIxs := view.instructions.take 8
  let budgetIxs := firstIxs.filter fun ix =>
    view.staticAccountKeys[ix.programIdIndex.toNat]? = some sdk.computeBudgetId
  let (requestedCus, cuPrice) ← budgetIxs.foldlM scanInstruction (none, none)
  let signatureCost : UInt64 := 5000 * UInt64.ofNat view.signatures.length
  let requestedCus := requestedCus.getD 200000
  let cuPrice := cuPrice.getD 0
  let totalFee := signatureCost +
    UInt64.ofNat (min (requestedCus.toNat * cuPrice.toNat / 1000000) (2 ^ 64 - 1))
  return ⟨cuPrice, totalFee, requestedCus⟩

theorem scanInstruction_total (acc : Option UInt32 × Option UInt64) (cbi : Instruction) :
    ∃ acc', scanInstruction acc cbi = .ok acc' := by
  unfold scanInstruction
  split
  · rename_i h
    cases acc.1 with
    | some _ => exact ⟨_, rfl⟩
    | none => exact ⟨_, by simp only [readUnaligned, h.1, Nat.reduceAdd, le_refl, if_true, ok_bind]; rfl⟩
  · split
    · rename_i h
      cases acc.2 with
      | some _ => exact ⟨_, rfl⟩
      | none => exact ⟨_, by simp only [readUnaligned, h.1, Nat.reduceAdd, le_refl, if_true, ok_bind]; rfl⟩
    · exact ⟨_, rfl⟩

theorem scan_total : ∀ (ixs : List Instruction) (acc : Option UInt32 × Option UInt64),
    ∃ acc', ixs.foldlM scanInstruction acc = .ok acc'
  | [], acc => ⟨acc, rfl⟩
  | ix :: ixs, acc => by
    obtain ⟨acc₁, h₁⟩ := scanInstruction_total acc ix
    obtain ⟨acc₂, h₂⟩ := scan_total ixs acc₁
    exact ⟨acc₂, by rw [List.foldlM_cons, h₁, ok_bind, h₂]⟩

/-- **The fee scan reads only instruction data**: it returns for every view. -/
theorem totalFee_total (sdk : Sdk) (view : TransactionView) : ∃ fee, totalFee sdk view = .ok fee := by
  unfold totalFee
  obtain ⟨acc, h⟩ := scan_total ((view.instructions.take 8).filter fun ix =>
    view.staticAccountKeys[ix.programIdIndex.toNat]? = some sdk.computeBudgetId) (none, none)
  exact ⟨_, by simp only [h, ok_bind]; rfl⟩

/-! ## Metas -/

structure QoSPartialMeta where
  ip : UInt32
  signer : Pubkey
  totalFee : UInt64
  cus : UInt32

def QoSPartialMeta.new (ip : Ipv4Addr) (signer : Pubkey) (totalFee : UInt64) (cus : UInt32) : QoSPartialMeta :=
  ⟨u32FromLeBytes ip.octets, signer, totalFee, cus⟩

structure QoSRemainingMeta where
  packetHash : UInt64
  executionNanos : UInt64

def QoSPartialMeta.merge {F : Type} [Div F] [NatCast F] (partialMeta : QoSPartialMeta)
    (remainingMeta : QoSRemainingMeta) : QoSTransactionMeta F :=
  let executionNanos := if remainingMeta.executionNanos = 0 then 100000 else remainingMeta.executionNanos
  ⟨partialMeta.ip, partialMeta.signer, (partialMeta.totalFee.toNat : F) / (executionNanos.toNat : F)⟩

structure ScoredTransaction (F : Type) where
  score : F
  sigKey : UInt64
  packet : Packet
  ipv4 : UInt32

/-- The derived order reads the score only. -/
instance scoredPreorder {F : Type} [Preorder F] : Preorder (ScoredTransaction F) := Preorder.lift ScoredTransaction.score

instance scoredDecidableLE {F : Type} [LinearOrder F] : DecidableLE (ScoredTransaction F) :=
  fun a b => inferInstanceAs (Decidable (a.score ≤ b.score))

def scoreHeap : HeapCrate (ScoredTransaction ℚ) :=
  listHeap (ScoredTransaction ℚ) (fun a b => le_total a.score b.score)

end Qos
