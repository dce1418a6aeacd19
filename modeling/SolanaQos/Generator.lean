import SolanaQos.BufWriter
import SolanaQos.PacketFile
/-!
# The packet generators (`engine/src/agent.rs`, `initialize_generator_threads` in `engine/src/lib.rs`)

A generator thread keeps one packet and edits it in place: price, blockhash and signature at fixed offsets, then the
size, the last byte of the buffer and the source of the sender it drew.  What the random number generators yield is
given with each turn, so a run of a thread is a list of choices, and the results hold for every list.  The packet that
the edits start from is a parameter too; its buffer beyond the transaction, and with it the byte that marks a badly
signed packet, is whatever it happens to be.

The edits.  An unchecked write is one that must stay in bounds (`writeAt`), and leaves every other byte alone
(`writeAt_ok`).  The windows of the fields are disjoint, so three edits one after the other leave each field as it was
written last (`edits_ok`).  Two results rest on that:
* edits followed by signing leave a signature of exactly the message that the buffer ends up with (`signed_edits`);
* a packet always is the template but for the edited bytes (`Grown`) and shows what was drawn for it (`Drawn`),
  whichever sender had the buffer before (`generator_sends`).

A bad sender marks one packet in four as empty and one in twenty as badly signed, and leaves the size and the mark of
the packet before on the rest.  A good sender writes both, so it cannot inherit a mark; a bad one that was never
preceded by a mark has the template's.

The log.  Price and source of the first four million packets go to a buffered writer, which is flushed behind the last
of them and at no other time: the thread never ends, so the writer is never dropped.  `Grown.run` accounts for what the
writer was given; `thread_read` for what the analysis finds in the file: all four million once they have been made, and
before that all but the 820 packets at most that the buffer and a cut line can hold back (a line has ten characters at
least).  `analysis_reads_generators` puts the threads together.
-/
namespace Qos

open Runs

/-! ## Writing into a buffer -/

theorem writeAt_size {n : Nat} (buf : Vector UInt8 n) {offset : Nat} {bytes : List UInt8}
    (h : offset + bytes.length ≤ n) :
    (buf.toList.take offset ++ bytes ++ buf.toList.drop (offset + bytes.length)).toArray.size = n := by
  rw [List.size_toArray, List.length_append, List.length_append, List.length_take, List.length_drop,
    Vector.length_toList]
  omega

/-- `copy_nonoverlapping` into a slice of `n` bytes. -/
def writeAt {n : Nat} (buf : Vector UInt8 n) (offset : Nat) (bytes : List UInt8) : Except Panic (Vector UInt8 n) :=
  if h : offset + bytes.length ≤ n then
    .ok ⟨(buf.toList.take offset ++ bytes ++ buf.toList.drop (offset + bytes.length)).toArray, writeAt_size buf h⟩
  else
    .error .outOfBounds

/-- **A write in bounds** puts its bytes at the offset and leaves every other byte. -/
theorem writeAt_ok {n : Nat} (buf : Vector UInt8 n) (offset : Nat) (bytes : List UInt8)
    (h : offset + bytes.length ≤ n) :
    ∃ buf', writeAt buf offset bytes = .ok buf' ∧ (buf'.toList.drop offset).take bytes.length = bytes ∧
      ∀ i, i < offset ∨ offset + bytes.length ≤ i → buf'.toList[i]? = buf.toList[i]? := by
  refine ⟨_, dif_pos h, ?_, fun i hi => ?_⟩
  · show (List.drop offset (buf.toList.take offset ++ bytes ++ _)).take bytes.length = bytes
    have hlen : (buf.toList.take offset).length = offset := by
      rw [List.length_take, Vector.length_toList]
      omega
    rw [List.append_assoc, List.drop_left' hlen, List.take_left]
  · show (buf.toList.take offset ++ bytes ++ buf.toList.drop (offset + bytes.length))[i]? = _
    have hlen : (buf.toList.take offset).length = offset := by
      rw [List.length_take, Vector.length_toList]
      omega
    rcases hi with hi | hi
    · rw [List.append_assoc, List.getElem?_append_left (by omega), List.getElem?_take_of_lt hi]
    · rw [List.getElem?_append_right (by rw [List.length_append]; omega), List.getElem?_drop, List.length_append, hlen]
      congr 1
      omega

theorem window_eq {a b : List UInt8} {offset len : Nat} (h : ∀ i, offset ≤ i → i < offset + len → a[i]? = b[i]?) :
    (a.drop offset).take len = (b.drop offset).take len := by
  refine List.ext_getElem? fun i => ?_
  rw [List.getElem?_take, List.getElem?_take, List.getElem?_drop, List.getElem?_drop]
  split
  · exact h _ (Nat.le_add_right _ _) (by omega)
  · rfl

theorem leNat_u64ToLeBytes (x : UInt64) : leNat (u64ToLeBytes x) = x.toNat := by
  have hx := x.toNat_lt
  have hbytes : (u64ToLeBytes x).map UInt8.toNat = (List.range 8).map fun i => x.toNat / 256 ^ i % 256 := by
    simp [u64ToLeBytes]
  unfold leNat
  rw [hbytes]
  simp only [List.range, List.range.loop, List.map_cons, List.map_nil, Nat.ofDigits_cons, Nat.ofDigits_nil]
  omega

/-! ## The edits (`agent.rs`)

The offsets are the constants `PRICE_AND_TRANSFER_TX_PRICE_U64_OFFSET`, `.._BLOCKHASH_OFFSET`, `.._SIGNATURE_OFFSET`,
`.._MESSAGE_OFFSET` and `.._PAYER_OFFSET` of the source, and the length is `.._TX_LEN`. -/

def priceOffset : Nat := 234

def blockhashOffset : Nat := 197

def signatureOffset : Nat := 1

def messageOffset : Nat := 65

def payerOffset : Nat := 69

def txLen : UInt64 := 259

variable {n : Nat}

def updateComputeUnitPrice (transactionBytes : Vector UInt8 n) (newPrice : UInt64) : Except Panic (Vector UInt8 n) :=
  writeAt transactionBytes priceOffset (u64ToLeBytes newPrice)

def updateBlockhash (transactionBytes : Vector UInt8 n) (newBlockhash : Vector UInt8 32) :
    Except Panic (Vector UInt8 n) :=
  writeAt transactionBytes blockhashOffset newBlockhash.toList

/-- The random signature is given. -/
def updateSignatureInvalid (transactionBytes : Vector UInt8 n) (sigBytes : Signature) : Except Panic (Vector UInt8 n) :=
  writeAt transactionBytes signatureOffset sigBytes.toList

/-- The new payer signs what stands in the slice behind the signatures once its key is in place. -/
def updatePayerAndSignature (transactionBytes : Vector UInt8 n) (newPayer : Pubkey)
    (signMessage : List UInt8 → Signature) : Except Panic (Vector UInt8 n) := do
  let transactionBytes ← writeAt transactionBytes payerOffset newPayer.bytes.toList
  if messageOffset ≤ n then
    writeAt transactionBytes signatureOffset (signMessage (transactionBytes.toList.drop messageOffset)).toList
  else
    .error .outOfBounds

def readPrice (packet : Packet) : Except Panic UInt64 := do
  return UInt64.ofNat (leNat (← readUnaligned packet.buffer.toList priceOffset 8))

theorem lastByte_lt : packetDataSize - 1 < packetDataSize := by decide

def Packet.setLast (packet : Packet) (b : UInt8) : Packet :=
  { packet with buffer := packet.buffer.set (packetDataSize - 1) b lastByte_lt }

def Packet.last (packet : Packet) : UInt8 := packet.buffer.get ⟨packetDataSize - 1, lastByte_lt⟩

def Packet.setSize (packet : Packet) (size : UInt64) : Packet :=
  { packet with metadata := { packet.metadata with size := size } }

/-- A sender; its signer and its generator show in the draws only. -/
structure Ip where
  ip : Vector UInt8 4
  bad : Bool
  deriving DecidableEq

/-- What one packet draws: the price, the blockhash, the signature, and a number in `[0, 1)`. -/
structure Draws where
  lamportsPerMegacu : UInt64
  blockhash : Vector UInt8 32
  sigBytes : Signature
  sample : ℚ

/-- `3e-1` as the `f32` that `sample` is compared with. -/
def threeTenths : ℚ := 10066330 / 33554432

def Ip.mark (self : Ip) (sample : ℚ) (packet : Packet) : Packet :=
  if self.bad then
    if sample < 1 / 4 then (packet.setSize 0).setLast 0
    else if sample < threeTenths then (packet.setLast 1).setSize txLen
    -- the rest of the bad packets keep the size and the last byte of the packet before
    else packet
  else (packet.setSize txLen).setLast 0

def Ip.updateTransferWithPriority (self : Ip) (draws : Draws) (packet : Packet) : Except Panic Packet := do
  let buffer ← updateComputeUnitPrice packet.buffer draws.lamportsPerMegacu
  let buffer ← updateBlockhash buffer draws.blockhash
  let buffer ← updateSignatureInvalid buffer draws.sigBytes
  let packet := self.mark draws.sample { packet with buffer := buffer }
  return { packet with metadata := { packet.metadata with addr := .v4 ⟨self.ip⟩ } }

/-! ## What the edits leave and what they write -/

def edited (i : Nat) : Prop :=
  (signatureOffset ≤ i ∧ i < signatureOffset + 64) ∨ (blockhashOffset ≤ i ∧ i < blockhashOffset + 32) ∨
    (priceOffset ≤ i ∧ i < priceOffset + 8) ∨ i = packetDataSize - 1

/-- **A packet that grew out of a template**: its other bytes are the template's, and it is a whole transaction, an empty
packet, a transaction marked as badly signed, or not marked yet. -/
structure Grown (template packet : Packet) : Prop where
  bytes : ∀ i, ¬ edited i → packet.buffer.toList[i]? = template.buffer.toList[i]?
  mark : (packet.metadata.size = txLen ∧ packet.last = 0) ∨ (packet.metadata.size = 0 ∧ packet.last = 0) ∨
    (packet.metadata.size = txLen ∧ packet.last = 1) ∨
    (packet.metadata.size = template.metadata.size ∧ packet.last = template.last)
  port : packet.metadata.port = template.metadata.port
  flags : packet.metadata.flags = template.metadata.flags

structure Drawn (sender : Ip) (draws : Draws) (packet : Packet) : Prop where
  price : readPrice packet = .ok draws.lamportsPerMegacu
  blockhash : (packet.buffer.toList.drop blockhashOffset).take 32 = draws.blockhash.toList
  signature : (packet.buffer.toList.drop signatureOffset).take 64 = draws.sigBytes.toList
  addr : packet.metadata.addr = .v4 ⟨sender.ip⟩
  good : sender.bad = false → packet.metadata.size = txLen ∧ packet.last = 0

theorem Grown.refl (template : Packet) : Grown template template :=
  ⟨fun _ _ => rfl, Or.inr (Or.inr (Or.inr ⟨rfl, rfl⟩)), rfl, rfl⟩

theorem last_setLast (packet : Packet) (b : UInt8) : (packet.setLast b).last = b :=
  Vector.getElem_set_self lastByte_lt

theorem getElem?_last (packet : Packet) : packet.buffer.toList[packetDataSize - 1]? = some packet.last := by
  rw [Vector.getElem?_toList]
  exact Vector.getElem?_eq_getElem lastByte_lt

theorem getElem?_setLast (packet : Packet) (b : UInt8) {i : Nat} (hi : i ≠ packetDataSize - 1) :
    (packet.setLast b).buffer.toList[i]? = packet.buffer.toList[i]? := by
  simp [Packet.setLast, Vector.toList_set, Ne.symm hi]

theorem readPrice_eq {packet : Packet} {price : UInt64}
    (h : (packet.buffer.toList.drop priceOffset).take 8 = u64ToLeBytes price) : readPrice packet = .ok price := by
  unfold readPrice readUnaligned
  rw [if_pos (by rw [Vector.length_toList]; decide), h, ok_bind, leNat_u64ToLeBytes]
  simp only [UInt64.ofNat_toNat]
  rfl

theorem edits_ok (packet : Packet) (draws : Draws) :
    ∃ b₁ b₂ b₃ : Vector UInt8 packetDataSize, updateComputeUnitPrice packet.buffer draws.lamportsPerMegacu = .ok b₁ ∧
      updateBlockhash b₁ draws.blockhash = .ok b₂ ∧ updateSignatureInvalid b₂ draws.sigBytes = .ok b₃ ∧
      (b₃.toList.drop priceOffset).take 8 = u64ToLeBytes draws.lamportsPerMegacu ∧
      (b₃.toList.drop blockhashOffset).take 32 = draws.blockhash.toList ∧
      (b₃.toList.drop signatureOffset).take 64 = draws.sigBytes.toList ∧
      ∀ i, ¬ edited i ∨ i = packetDataSize - 1 → b₃.toList[i]? = packet.buffer.toList[i]? := by
  have hp := u64ToLeBytes_length draws.lamportsPerMegacu
  have hb : draws.blockhash.toList.length = 32 := Vector.length_toList
  have hs : draws.sigBytes.toList.length = 64 := Vector.length_toList
  obtain ⟨b₁, h₁, hw₁, hf₁⟩ := writeAt_ok packet.buffer priceOffset
    (u64ToLeBytes draws.lamportsPerMegacu) (by rw [hp]; decide)
  obtain ⟨b₂, h₂, hw₂, hf₂⟩ := writeAt_ok b₁ blockhashOffset draws.blockhash.toList
    (by rw [hb]; decide)
  obtain ⟨b₃, h₃, hw₃, hf₃⟩ := writeAt_ok b₂ signatureOffset draws.sigBytes.toList
    (by rw [hs]; decide)
  rw [hp] at hw₁ hf₁
  rw [hb] at hw₂ hf₂
  rw [hs] at hw₃ hf₃
  simp only [edited, priceOffset, blockhashOffset, signatureOffset, packetDataSize] at *
  refine ⟨b₁, b₂, b₃, h₁, h₂, h₃, ?_, ?_, hw₃, fun i hi => ?_⟩
  · rw [← hw₁]
    exact window_eq fun i hlo hhi => (hf₃ i (by omega)).trans (hf₂ i (by omega))
  · rw [← hw₂]
    exact window_eq fun i hlo hhi => hf₃ i (by omega)
  · rw [hf₃ i (by omega), hf₂ i (by omega), hf₁ i (by omega)]

theorem updatePayerAndSignature_ok (transactionBytes : Vector UInt8 n) (hn : payerOffset + 32 ≤ n) (newPayer : Pubkey)
    (signMessage : List UInt8 → Signature) :
    ∃ b, updatePayerAndSignature transactionBytes newPayer signMessage = .ok b ∧
      (b.toList.drop payerOffset).take 32 = newPayer.bytes.toList ∧
      (b.toList.drop signatureOffset).take 64 = (signMessage (b.toList.drop messageOffset)).toList ∧
      ∀ i, i < signatureOffset ∨ (messageOffset ≤ i ∧ i < payerOffset) ∨ payerOffset + 32 ≤ i →
        b.toList[i]? = transactionBytes.toList[i]? := by
  have hp : newPayer.bytes.toList.length = 32 := Vector.length_toList
  have hm : messageOffset ≤ n := le_trans (by decide) hn
  simp only [payerOffset, messageOffset, signatureOffset] at hn ⊢
  obtain ⟨b₁, h₁, hw₁, hf₁⟩ := writeAt_ok transactionBytes 69 newPayer.bytes.toList (by omega)
  have hs : (signMessage (b₁.toList.drop 65)).toList.length = 64 := Vector.length_toList
  obtain ⟨b₂, h₂, hw₂, hf₂⟩ := writeAt_ok b₁ 1 (signMessage (b₁.toList.drop 65)).toList (by omega)
  rw [hp] at hw₁ hf₁
  rw [hs] at hw₂ hf₂
  -- the signature stands before the message and changes nothing of it
  have hmessage : b₂.toList.drop 65 = b₁.toList.drop 65 := by
    refine List.ext_getElem? fun i => ?_
    rw [List.getElem?_drop, List.getElem?_drop]
    exact hf₂ _ (by omega)
  refine ⟨b₂, ?_, ?_, ?_, fun i hi => ?_⟩
  · unfold updatePayerAndSignature
    rw [payerOffset, h₁, ok_bind, if_pos hm]
    exact h₂
  · rw [← hw₁]
    exact window_eq fun i hlo hhi => hf₂ i (by omega)
  · rw [hmessage]
    exact hw₂
  · rw [hf₂ i (by omega), hf₁ i (by omega)]

/-- **A signed transfer**: after the edits, in this order, the price, the blockhash and the payer are the new ones, the
signature is the payer's of the message that the bytes now hold, and every other byte is as before. -/
theorem signed_edits (transactionBytes : Vector UInt8 n) (hn : priceOffset + 8 ≤ n) (newPrice : UInt64)
    (newBlockhash : Vector UInt8 32) (newPayer : Pubkey) (signMessage : List UInt8 → Signature) :
    ∃ b₁ b₂ b, updateComputeUnitPrice transactionBytes newPrice = .ok b₁ ∧ updateBlockhash b₁ newBlockhash = .ok b₂ ∧
      updatePayerAndSignature b₂ newPayer signMessage = .ok b ∧
      (b.toList.drop priceOffset).take 8 = u64ToLeBytes newPrice ∧
      (b.toList.drop blockhashOffset).take 32 = newBlockhash.toList ∧
      (b.toList.drop payerOffset).take 32 = newPayer.bytes.toList ∧
      (b.toList.drop signatureOffset).take 64 = (signMessage (b.toList.drop messageOffset)).toList ∧
      ∀ i, i = 0 ∨ (messageOffset ≤ i ∧ i < payerOffset) ∨ (payerOffset + 32 ≤ i ∧ i < blockhashOffset) ∨
        (blockhashOffset + 32 ≤ i ∧ i < priceOffset) ∨ priceOffset + 8 ≤ i →
        b.toList[i]? = transactionBytes.toList[i]? := by
  have hp : (u64ToLeBytes newPrice).length = 8 := u64ToLeBytes_length newPrice
  have hb : newBlockhash.toList.length = 32 := Vector.length_toList
  have hend : payerOffset + 32 ≤ n := le_trans (by decide) hn
  obtain ⟨b₁, h₁, hw₁, hf₁⟩ := writeAt_ok transactionBytes priceOffset (u64ToLeBytes newPrice) (by rw [hp]; exact hn)
  obtain ⟨b₂, h₂, hw₂, hf₂⟩ := writeAt_ok b₁ blockhashOffset newBlockhash.toList
    (by rw [hb]; exact le_trans (by decide) hn)
  obtain ⟨b, h₃, hpayer, hsig, hf₃⟩ := updatePayerAndSignature_ok b₂ hend newPayer signMessage
  rw [hp] at hw₁ hf₁
  rw [hb] at hw₂ hf₂
  simp only [payerOffset, messageOffset, signatureOffset, blockhashOffset, priceOffset] at *
  refine ⟨b₁, b₂, b, h₁, h₂, h₃, ?_, ?_, hpayer, hsig, fun i hi => ?_⟩
  · rw [← hw₁]
    exact window_eq fun i hlo hhi => (hf₃ i (by omega)).trans (hf₂ i (by omega))
  · rw [← hw₂]
    exact window_eq fun i hlo hhi => hf₃ i (by omega)
  · rw [hf₃ i (by omega), hf₂ i (by omega), hf₁ i (by omega)]

/-- The transaction of the template's length, signed by one that repeats the first byte of the message. -/
theorem signed_edits_transfer :
    ∃ b : Vector UInt8 259, ∃ b₁ b₂, updateComputeUnitPrice (.replicate 259 7) 139 = .ok b₁ ∧
      updateBlockhash b₁ (.replicate 32 42) = .ok b₂ ∧
      updatePayerAndSignature b₂ ⟨.replicate 32 9⟩ (fun message => .replicate 64 (message.headD 0)) = .ok b ∧
      (b.toList.drop signatureOffset).take 64 =
        (Vector.replicate 64 ((b.toList.drop messageOffset).headD 0)).toList := by
  obtain ⟨b₁, b₂, b, h₁, h₂, h₃, -, -, -, hsig, -⟩ := signed_edits (Vector.replicate 259 7) (by decide) 139
    (.replicate 32 42) ⟨.replicate 32 9⟩ (fun message => .replicate 64 (message.headD 0))
  exact ⟨b, b₁, b₂, h₁, h₂, h₃, hsig⟩

theorem mark_cases (self : Ip) (sample : ℚ) (packet : Packet) :
    (∀ i, i ≠ packetDataSize - 1 → (self.mark sample packet).buffer.toList[i]? = packet.buffer.toList[i]?) ∧
      (self.mark sample packet).metadata.port = packet.metadata.port ∧
      (self.mark sample packet).metadata.flags = packet.metadata.flags ∧
      (self.bad = false → (self.mark sample packet).metadata.size = txLen ∧ (self.mark sample packet).last = 0) ∧
      (((self.mark sample packet).metadata.size = txLen ∧ (self.mark sample packet).last = 0) ∨
        ((self.mark sample packet).metadata.size = 0 ∧ (self.mark sample packet).last = 0) ∨
        ((self.mark sample packet).metadata.size = txLen ∧ (self.mark sample packet).last = 1) ∨
        self.mark sample packet = packet) := by
  unfold Ip.mark
  cases hbad : self.bad with
  | false =>
    simp only [Bool.false_eq_true, if_false]
    exact ⟨fun i hi => getElem?_setLast _ _ hi, rfl, rfl, fun _ => ⟨rfl, last_setLast _ _⟩,
      Or.inl ⟨rfl, last_setLast _ _⟩⟩
  | true =>
    simp only [if_true]
    split
    · exact ⟨fun i hi => getElem?_setLast _ _ hi, rfl, rfl, nofun, Or.inr (Or.inl ⟨rfl, last_setLast _ _⟩)⟩
    · split
      · exact ⟨fun i hi => getElem?_setLast _ _ hi, rfl, rfl, nofun,
          Or.inr (Or.inr (Or.inl ⟨rfl, last_setLast _ _⟩))⟩
      · exact ⟨fun i _ => rfl, rfl, rfl, nofun, Or.inr (Or.inr (Or.inr rfl))⟩

/-- **One edit**: a packet that grew out of a template grows on, and shows what was drawn. -/
theorem Grown.update {template packet : Packet} (h : Grown template packet) (self : Ip) (draws : Draws) :
    ∃ packet', self.updateTransferWithPriority draws packet = .ok packet' ∧ Grown template packet' ∧
      Drawn self draws packet' := by
  obtain ⟨b₁, b₂, b₃, h₁, h₂, h₃, hprice, hhash, hsig, hframe⟩ := edits_ok packet draws
  obtain ⟨hrest, hport, hflags, hgood, hmark⟩ := mark_cases self draws.sample { packet with buffer := b₃ }
  have hlast : ({ packet with buffer := b₃ } : Packet).last = packet.last := by
    have hsame := hframe (packetDataSize - 1) (Or.inr rfl)
    exact Option.some.inj ((getElem?_last _).symm.trans (hsame.trans (getElem?_last packet)))
  generalize hmarked : self.mark draws.sample { packet with buffer := b₃ } = marked at hrest hport hflags hgood hmark
  have hwindow : ∀ offset len, offset + len ≤ packetDataSize - 1 →
      (marked.buffer.toList.drop offset).take len = (b₃.toList.drop offset).take len :=
    fun offset len hlen => window_eq fun i _ hhi => hrest i (by omega)
  refine ⟨{ marked with metadata := { marked.metadata with addr := .v4 ⟨self.ip⟩ } }, ?_, ?_, ?_⟩
  · unfold Ip.updateTransferWithPriority
    rw [h₁, ok_bind, h₂, ok_bind, h₃, ok_bind, hmarked]
    rfl
  · refine ⟨fun i hi => ?_, ?_, hport.trans h.port, hflags.trans h.flags⟩
    · have hne : i ≠ packetDataSize - 1 := fun he => hi (Or.inr (Or.inr (Or.inr he)))
      exact (hrest i hne).trans ((hframe i (Or.inl hi)).trans (h.bytes i hi))
    · rcases hmark with hm | hm | hm | hsame
      · exact Or.inl hm
      · exact Or.inr (Or.inl hm)
      · exact Or.inr (Or.inr (Or.inl hm))
      · have hold := h.mark
        rw [← hlast] at hold
        rw [hsame]
        exact hold
  · refine ⟨readPrice_eq ?_, ?_, ?_, rfl, hgood⟩
    · exact (hwindow priceOffset 8 (by decide)).trans hprice
    · exact (hwindow blockhashOffset 32 (by decide)).trans hhash
    · exact (hwindow signatureOffset 64 (by decide)).trans hsig

/-! ## A generator thread -/

def ips : List Ip := [⟨#v[1, 1, 1, 1], false⟩, ⟨#v[2, 2, 2, 2], false⟩, ⟨#v[7, 7, 7, 7], true⟩]

abbrev PriceFile : Type := BufWriter Char (8 * 1024)

/-- The line that a thread writes for its `i`-th packet.  The last of them is the only one that it flushes. -/
def logPrice (writeToFile : Bool) (i : Nat) (file : PriceFile) (packet : Packet) : Except Panic PriceFile := do
  if writeToFile ∧ i < 4000000 then
    let price ← readPrice packet
    let file := file.writePieces (pricePieces price packet.metadata.addr)
    return if i = 4000000 - 1 then file.flush else file
  else return file

structure Generator where
  packet : Packet
  i : Nat := 0
  file : PriceFile := .create

/-- One turn of the loop: the packet is sent twice. -/
def Generator.turn (writeToFile : Bool) (g : Generator) (choice : Ip × Draws) :
    Except Panic (List Packet × Generator) := do
  let packet ← choice.1.updateTransferWithPriority choice.2 g.packet
  let file ← logPrice writeToFile g.i g.file packet
  return ([packet, packet], ⟨packet, g.i + 1, file⟩)

/-- A thread that has written all its lines has flushed them. -/
def Generator.Flushed (g : Generator) : Prop := 4000000 ≤ g.i → g.file.file = g.file.contents

def Draws.record (choice : Ip × Draws) : UInt64 × Ipv4Addr := (choice.2.lamportsPerMegacu, ⟨choice.1.ip⟩)

def writtenFor (writeToFile : Bool) (i : Nat) (choices : List (Ip × Draws)) : List (UInt64 × Ipv4Addr) :=
  if writeToFile then (choices.take (4000000 - i)).map Draws.record else []

theorem logPrice_ok {choice : Ip × Draws} {packet : Packet} (hdrawn : Drawn choice.1 choice.2 packet)
    (writeToFile : Bool) (i : Nat) (file : PriceFile) :
    ∃ file', logPrice writeToFile i file packet = .ok file' ∧
      file'.contents = file.contents ++ linesOf (writtenFor writeToFile i [choice]) ∧
      (writeToFile = true → (4000000 ≤ i → file.file = file.contents) → 4000000 ≤ i + 1 →
        file'.file = file'.contents) := by
  unfold logPrice writtenFor
  by_cases hwrite : writeToFile = true ∧ i < 4000000
  · have hone : [choice].take (4000000 - i) = [choice] := by
      rw [List.take_of_length_le]
      rw [List.length_singleton]
      omega
    rw [if_pos hwrite, hdrawn.price, ok_bind, hdrawn.addr, if_pos hwrite.1, hone]
    by_cases hlast : i = 4000000 - 1
    · refine ⟨_, by simp only [if_pos hlast]; rfl, ?_, fun _ _ _ => ?_⟩
      · simp [linesOf, Draws.record]
      · simp
    · refine ⟨_, by simp only [if_neg hlast]; rfl, ?_, fun _ _ hi => ?_⟩
      · simp [linesOf, Draws.record]
      · omega
  · rw [if_neg hwrite]
    refine ⟨file, rfl, ?_, fun htrue hflushed _ => hflushed (by simpa [htrue] using hwrite)⟩
    cases writeToFile with
    | false => simp [linesOf]
    | true =>
      have hi : 4000000 - i = 0 := Nat.sub_eq_zero_of_le (by simpa using hwrite)
      simp [linesOf, hi]

theorem Grown.turn {template : Packet} {g : Generator} (h : Grown template g.packet) (writeToFile : Bool)
    (choice : Ip × Draws) : ∃ packet g', g.turn writeToFile choice = .ok ([packet, packet], g') ∧
      Grown template packet ∧ Drawn choice.1 choice.2 packet ∧ g'.packet = packet ∧ g'.i = g.i + 1 ∧
      g'.file.contents = g.file.contents ++ linesOf (writtenFor writeToFile g.i [choice]) ∧
      (writeToFile = true → g.Flushed → g'.Flushed) := by
  obtain ⟨packet, hupdate, hgrown, hdrawn⟩ := h.update choice.1 choice.2
  obtain ⟨file, hlog, hcontents, hflushed⟩ := logPrice_ok hdrawn writeToFile g.i g.file
  refine ⟨packet, ⟨packet, g.i + 1, file⟩, ?_, hgrown, hdrawn, rfl, rfl, hcontents, hflushed⟩
  unfold Generator.turn
  rw [hupdate, ok_bind, hlog]
  rfl

theorem writtenFor_cons (writeToFile : Bool) (i : Nat) (choice : Ip × Draws) (choices : List (Ip × Draws)) :
    writtenFor writeToFile i (choice :: choices) =
      writtenFor writeToFile i [choice] ++ writtenFor writeToFile (i + 1) choices := by
  unfold writtenFor
  cases writeToFile with
  | false => rfl
  | true =>
    simp only [if_true, ← List.map_append]
    congr 1
    by_cases hi : i < 4000000
    · rw [show 4000000 - i = (4000000 - (i + 1)) + 1 by omega, List.take_succ_cons, List.take_succ_cons, List.take_nil]
      rfl
    · rw [show 4000000 - i = 0 by omega, show 4000000 - (i + 1) = 0 by omega]
      rfl

/-- **A whole thread**: every turn succeeds, the packets come in pairs, each shows what was drawn for it and still is
the template everywhere else; the writer of the file was given a line for each of the first four million, and flushed
them. -/
theorem Grown.run {template : Packet} (writeToFile : Bool) : ∀ (choices : List (Ip × Draws)) {g : Generator},
    Grown template g.packet → ∃ packets g', run (Generator.turn writeToFile) g choices =
        .ok (packets.map fun packet => [packet, packet], g') ∧
      List.Forall₂ (fun choice packet => Grown template packet ∧ Drawn choice.1 choice.2 packet) choices packets ∧
      g'.i = g.i + choices.length ∧
      g'.file.contents = g.file.contents ++ linesOf (writtenFor writeToFile g.i choices) ∧
      (writeToFile = true → g.Flushed → g'.Flushed)
  | [], g, _ => ⟨[], g, rfl, .nil, rfl, by simp [writtenFor, linesOf], fun _ h => h⟩
  | choice :: choices, g, h => by
    obtain ⟨packet, g₁, hturn, hgrown, hdrawn, rfl, hi, hcontents, hflushed⟩ := h.turn writeToFile choice
    obtain ⟨packets, g', hrun, hall, hlen, hrest, hflushed'⟩ := Grown.run writeToFile choices hgrown
    refine ⟨g₁.packet :: packets, g', ?_, .cons ⟨hgrown, hdrawn⟩ hall, ?_, ?_, fun htrue hg =>
      hflushed' htrue (hflushed htrue hg)⟩
    · simp [Runs.run, hturn, hrun]
    · rw [hlen, hi, List.length_cons]
      omega
    · rw [hrest, hcontents, hi, writtenFor_cons writeToFile g.i choice choices, linesOf_append, List.append_assoc]

/-- The bytes of `null_transfer_transaction_with_compute_unit_price` for this sender and this receiver. -/
def transferBytes (sender receiver : Pubkey) : List UInt8 :=
  [1] ++ List.replicate 64 0 ++ [1, 0, 2, 4] ++ sender.bytes.toList ++ receiver.bytes.toList ++
    -- the system program and the compute budget program
    List.replicate 32 0 ++
    [3, 6, 70, 111, 229, 33, 23, 50, 255, 236, 173, 186, 114, 195, 155, 231, 188, 140, 229, 187, 197, 247, 18, 107, 44, 67,
      155, 58, 64, 0, 0, 0] ++
    List.replicate 32 42 ++ [2] ++ [3, 0, 9, 3] ++ u64ToLeBytes 115 ++ [2, 2, 0, 1, 12, 2, 0, 0, 0] ++ List.replicate 8 0

theorem transferBytes_length (sender receiver : Pubkey) : (transferBytes sender receiver).length = 259 := by
  simp only [transferBytes, List.length_append, List.length_replicate, Vector.length_toList, u64ToLeBytes_length,
    List.length_cons, List.length_nil]

theorem transferBytes_size (sender receiver : Pubkey) :
    (transferBytes sender receiver ++ List.replicate 973 0).toArray.size = packetDataSize := by
  rw [List.size_toArray, List.length_append, transferBytes_length, List.length_replicate]
  rfl

def transferPacket (sender receiver : Pubkey) : Packet :=
  ⟨⟨(transferBytes sender receiver ++ List.replicate 973 0).toArray, transferBytes_size sender receiver⟩,
    ⟨txLen, .v4 ⟨#v[0, 0, 0, 0]⟩, 0, 0⟩⟩

/-- **What a generator thread sends**, whatever it draws: it never leaves the buffer, every packet is sent twice, shows
the price, blockhash, signature and source drawn for it and keeps every other byte of the template but the last, and a
good sender's packet is always a whole and well signed one. -/
theorem generator_sends (template : Packet) (writeToFile : Bool) (choices : List (Ip × Draws)) :
    ∃ packets g, run (Generator.turn writeToFile) { packet := template } choices =
        .ok (packets.map fun packet => [packet, packet], g) ∧
      List.Forall₂ (fun choice packet => Grown template packet ∧ Drawn choice.1 choice.2 packet) choices packets := by
  obtain ⟨packets, g, hrun, hall, -⟩ := Grown.run writeToFile choices (g := { packet := template }) (.refl template)
  exact ⟨packets, g, hrun, hall⟩

/-- The bad sender marks a packet, draws again and leaves the mark, and a good sender clears it. -/
theorem generator_sends_three :
    ∃ (bad good : Ip) (draws : ℚ → Draws), bad ∈ ips ∧ good ∈ ips ∧ bad.bad = true ∧ good.bad = false ∧
      ∃ (p₁ p₂ p₃ : Packet) (g : Generator), run (Generator.turn true)
          { packet := transferPacket ⟨.replicate 32 8⟩ ⟨.replicate 32 9⟩ }
          [(bad, draws (1 / 4)), (bad, draws (1 / 2)), (good, draws 0)] =
          .ok ([[p₁, p₁], [p₂, p₂], [p₃, p₃]], g) ∧
        readPrice p₁ = .ok 250000 ∧ p₃.metadata.size = txLen ∧ p₃.last = 0 := by
  obtain ⟨packets, g, hrun, hall⟩ := generator_sends (transferPacket ⟨.replicate 32 8⟩ ⟨.replicate 32 9⟩) true
    [(⟨#v[7, 7, 7, 7], true⟩, ⟨250000, .replicate 32 5, .replicate 64 6, 1 / 4⟩),
      (⟨#v[7, 7, 7, 7], true⟩, ⟨250000, .replicate 32 5, .replicate 64 6, 1 / 2⟩),
      (⟨#v[1, 1, 1, 1], false⟩, ⟨250000, .replicate 32 5, .replicate 64 6, 0⟩)]
  obtain ⟨p₁, p₂, p₃, rfl⟩ := List.length_eq_three.1 hall.length_eq.symm
  obtain ⟨h₁, hrest⟩ := List.forall₂_cons.1 hall
  obtain ⟨-, hrest⟩ := List.forall₂_cons.1 hrest
  obtain ⟨h₃, -⟩ := List.forall₂_cons.1 hrest
  exact ⟨_, _, fun sample => ⟨250000, .replicate 32 5, .replicate 64 6, sample⟩, by decide, by decide, rfl, rfl, p₁, p₂,
    p₃, g, hrun, h₁.2.price, h₃.2.good rfl⟩

/-! ## From the draws to the analysis -/

theorem ips_sole {sender : Ip} (h : sender ∈ ips) : Sole ⟨sender.ip⟩ := by
  refine sole_of_length ?_
  simp only [ips, List.mem_cons, List.not_mem_nil, or_false] at h
  rcases h with rfl | rfl | rfl <;> decide +kernel

/-- The shortest line has ten characters. -/
theorem ten_le_linesOf : ∀ records : List (UInt64 × Ipv4Addr), 10 * records.length ≤ (linesOf records).length
  | [] => le_refl _
  | (price, a) :: records => by
    have hprice : 1 ≤ (Nat.toDigits 10 price.toNat).length := List.length_pos_iff.2 Nat.toDigits_ne_nil
    have haddr := seven_le_display a
    have hrest := ten_le_linesOf records
    simp only [linesOf_cons, lineText, List.length_append, List.length_cons, List.length_nil]
    omega

/-- **What the analysis reads of one thread's file**: the first packets, all four million once the thread has made them,
and before that all but at most 820 of what it has logged. -/
theorem thread_read (template : Packet) (choices : List (Ip × Draws)) (hips : ∀ choice ∈ choices, choice.1 ∈ ips) :
    ∃ sent g kept, run (Generator.turn true) { packet := template } choices = .ok (sent, g) ∧
      kept <+: choices.take 4000000 ∧ (4000000 ≤ choices.length → kept = choices.take 4000000) ∧
      (choices.take 4000000).length ≤ kept.length + 820 ∧
      ∀ a : Ipv4Addr, valuesUnder a.display.toList (fileEntries (some g.file.file)) =
        pricesOf a (kept.map Draws.record) := by
  obtain ⟨packets, g, hrun, -, hi, hcontents, hflushed⟩ :=
    Grown.run true choices (g := { packet := template }) (.refl template)
  generalize hlogged : choices.take 4000000 = logged
  have hrecords : g.file.contents = linesOf (logged.map Draws.record) := by
    rw [hcontents, ← hlogged]
    rfl
  obtain ⟨k, hk, hend, hread⟩ := fileEntries_prefix (logged.map Draws.record) g.file.file (hrecords ▸ g.file.file_prefix)
    (by
      intro r hr
      obtain ⟨choice, hchoice, rfl⟩ := List.mem_map.1 hr
      exact ips_sole (hips choice (List.mem_of_mem_take (hlogged ▸ hchoice))))
  have hlines := linesOf_append ((logged.map Draws.record).take (k + 1)) ((logged.map Draws.record).drop (k + 1))
  rw [List.take_append_drop, ← hrecords] at hlines
  have hlen := congrArg List.length hlines
  rw [List.length_append] at hlen
  rw [List.length_map] at hk hend
  refine ⟨_, g, logged.take k, hrun, List.take_prefix k logged, fun hfull => ?_, ?_, fun a => ?_⟩
  · -- behind the flush nothing is missing
    refine List.take_of_length_le (Nat.le_of_not_lt fun hlt => ?_)
    have hmissing := hend hlt
    rw [hflushed rfl (fun h => absurd h (by simp)) (by rw [hi]; omega)] at hmissing
    omega
  · rw [List.length_take, Nat.min_eq_left hk]
    rcases Nat.lt_or_ge k logged.length with hlt | hge
    · have hmissing := hend hlt
      have hbuffer := g.file.length_contents_le
      have hten := ten_le_linesOf ((logged.map Draws.record).drop (k + 1))
      rw [List.length_drop, List.length_map] at hten
      omega
    · omega
  · rw [hread, List.map_take]

/-- **From the draws to the analysis**: whatever the threads draw, the analysis reads their files back as the prices of
each source: of each thread the first packets, all four million once the thread has made them, and before that all but
at most 820 of what it has logged. -/
theorem analysis_reads_generators (template : Packet) (threads : List (List (Ip × Draws)))
    (hips : ∀ choices ∈ threads, ∀ choice ∈ choices, choice.1 ∈ ips) :
    ∃ (files : List (List Char)) (kept : List (List (Ip × Draws))),
      List.Forall₂ (fun choices file => ∃ sent g,
        run (Generator.turn true) { packet := template } choices = .ok (sent, g) ∧ g.file.file = file) threads files ∧
      List.Forall₂ (fun choices kept => kept <+: choices.take 4000000 ∧
        (4000000 ≤ choices.length → kept = choices.take 4000000) ∧
        (choices.take 4000000).length ≤ kept.length + 820) threads kept ∧
      ∀ a : Ipv4Addr, ipValues (files.map some) a.display.toList =
        let prices := pricesOf a (kept.flatten.map Draws.record)
        if prices = [] then none else some prices := by
  have hread : ∃ (files : List (List Char)) (kept : List (List (Ip × Draws))),
      List.Forall₂ (fun choices file => ∃ sent g,
        run (Generator.turn true) { packet := template } choices = .ok (sent, g) ∧ g.file.file = file) threads files ∧
      List.Forall₂ (fun choices kept => kept <+: choices.take 4000000 ∧
        (4000000 ≤ choices.length → kept = choices.take 4000000) ∧
        (choices.take 4000000).length ≤ kept.length + 820) threads kept ∧
      ∀ a : Ipv4Addr, valuesUnder a.display.toList ((files.map some).flatMap fileEntries) =
        pricesOf a (kept.flatten.map Draws.record) := by
    induction threads with
    | nil => exact ⟨[], [], .nil, .nil, fun a => rfl⟩
    | cons choices threads ih =>
      obtain ⟨sent, g, first, hrun, hfront, hfull, hlost, hfirst⟩ :=
        thread_read template choices (hips choices List.mem_cons_self)
      obtain ⟨files, kept, hfiles, hkept, hrest⟩ := ih fun c hc => hips c (List.mem_cons_of_mem _ hc)
      refine ⟨g.file.file :: files, first :: kept, .cons ⟨sent, g, hrun, rfl⟩ hfiles,
        .cons ⟨hfront, hfull, hlost⟩ hkept, fun a => ?_⟩
      rw [List.map_cons, List.flatMap_cons, valuesUnder_append, hfirst, hrest, List.flatten_cons, List.map_append,
        pricesOf_append]
  obtain ⟨files, kept, hfiles, hkept, hvalues⟩ := hread
  refine ⟨files, kept, hfiles, hkept, fun a => ?_⟩
  rw [ipValues_eq, hvalues]

theorem pricesOf_replicate (a : Ipv4Addr) (n : Nat) (r : UInt64 × Ipv4Addr) :
    pricesOf a (List.replicate n r) = if r.2 = a then List.replicate n r.1 else [] := by
  unfold pricesOf
  rw [List.filter_replicate]
  split
  · rename_i h
    rw [List.map_replicate, if_pos (by simpa using h)]
  · rename_i h
    rw [if_neg (by simpa using h), List.map_nil]

/-- A thread that has made its four million packets, and one that has made a thousand: of the second, the file holds some
180 packets at least. -/
theorem analysis_reads_generators_two :
    ∃ (files : List (List Char)) (n : Nat), files.length = 2 ∧ 180 ≤ n ∧ n ≤ 1000 ∧
      ipValues (files.map some) "1.1.1.1".toList = some (List.replicate 4000000 250000) ∧
      ipValues (files.map some) "7.7.7.7".toList = some (List.replicate n 70000) ∧
      ipValues (files.map some) "2.2.2.2".toList = none := by
  obtain ⟨files, kept, hfiles, hkept, hread⟩ := analysis_reads_generators
    (transferPacket ⟨.replicate 32 8⟩ ⟨.replicate 32 9⟩)
    [List.replicate 4000000 (⟨#v[1, 1, 1, 1], false⟩, ⟨250000, .replicate 32 5, .replicate 64 6, 0⟩),
      List.replicate 1000 (⟨#v[7, 7, 7, 7], true⟩, ⟨70000, .replicate 32 5, .replicate 64 6, 0⟩)] (by
    intro choices hchoices choice hchoice
    rcases List.mem_pair.1 hchoices with rfl | rfl
    · rw [List.eq_of_mem_replicate hchoice]
      decide
    · rw [List.eq_of_mem_replicate hchoice]
      decide)
  obtain ⟨k₁, _, ⟨-, hfull, -⟩, hrest, rfl⟩ := List.forall₂_cons_left_iff.1 hkept
  obtain ⟨k₂, _, ⟨hfront, -, hlost⟩, hnil, rfl⟩ := List.forall₂_cons_left_iff.1 hrest
  obtain rfl := List.forall₂_nil_left_iff.1 hnil
  have hk₁ := hfull (by rw [List.length_replicate])
  rw [List.take_replicate, Nat.min_self] at hk₁
  rw [List.take_replicate, Nat.min_eq_right (by decide)] at hfront hlost
  rw [List.length_replicate] at hlost
  have hk₂ := List.eq_replicate_of_mem fun c hc => List.eq_of_mem_replicate (hfront.mem hc)
  have hle := hfront.length_le
  rw [List.length_replicate] at hle
  have hprices : ∀ a : Ipv4Addr, pricesOf a ([k₁, k₂].flatten.map Draws.record) =
      (if (⟨#v[1, 1, 1, 1]⟩ : Ipv4Addr) = a then List.replicate 4000000 250000 else []) ++
        if (⟨#v[7, 7, 7, 7]⟩ : Ipv4Addr) = a then List.replicate k₂.length 70000 else [] := by
    intro a
    rw [hk₁, List.flatten_cons, List.flatten_singleton, List.map_append, pricesOf_append, List.map_replicate,
      pricesOf_replicate]
    rw [hk₂, List.map_replicate, pricesOf_replicate, List.length_replicate]
    rfl
  refine ⟨files, k₂.length, hfiles.length_eq.symm, by omega, hle, ?_, ?_, ?_⟩
  · have h := hread ⟨#v[1, 1, 1, 1]⟩
    rw [show (Ipv4Addr.display ⟨#v[1, 1, 1, 1]⟩) = "1.1.1.1" by decide +kernel] at h
    have hone := hprices ⟨#v[1, 1, 1, 1]⟩
    rw [if_pos rfl, if_neg (by decide), List.append_nil] at hone
    rw [h, hone]
    exact if_neg (List.ne_nil_of_length_pos (by rw [List.length_replicate]; decide))
  · have h := hread ⟨#v[7, 7, 7, 7]⟩
    rw [show (Ipv4Addr.display ⟨#v[7, 7, 7, 7]⟩) = "7.7.7.7" by decide +kernel] at h
    have hone := hprices ⟨#v[7, 7, 7, 7]⟩
    rw [if_neg (by decide), if_pos rfl, List.nil_append] at hone
    rw [h, hone]
    exact if_neg (List.ne_nil_of_length_pos (by rw [List.length_replicate]; omega))
  · have h := hread ⟨#v[2, 2, 2, 2]⟩
    rw [show (Ipv4Addr.display ⟨#v[2, 2, 2, 2]⟩) = "2.2.2.2" by decide +kernel] at h
    have hone := hprices ⟨#v[2, 2, 2, 2]⟩
    rw [if_neg (by decide), if_neg (by decide), List.append_nil] at hone
    rw [h, hone]
    rfl

end Qos
