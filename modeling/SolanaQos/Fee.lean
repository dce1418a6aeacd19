import SolanaQos.Feedback
/-!
# What a transaction asks for and what it is charged (`total_fee` in `qos-core/src/lib.rs`)

The scan over the first eight instructions keeps the first limit and the first price it meets (`scan_eq`), so the two
values it reports are those of two searches: neither the order of the two kinds nor anything behind the first of a kind
matters (`totalFee_requests`).  An instruction counts if its program index resolves to the compute budget program and
its data has the length and the tag of its kind: five bytes behind a 2 for a limit, nine behind a 3 for a price.

The fee is the sum of a signature cost and a compute cost.  The compute cost is a 128-bit product, divided down and
clamped to 64 bits; the clamp comes before the sum, and the sum of two 64-bit values can pass the end of the range.  So
the fee is the clamped exact fee unless the exact one is out of range (`totalFee_saturates_iff`); the greatest limit at
the greatest price costs less than one signature (`totalFee_wraps`).
-/
namespace Qos

open Runs

/-! ## The two searches -/

def TransactionView.callsBudget (sdk : Sdk) (view : TransactionView) (ix : Instruction) : Bool :=
  view.staticAccountKeys[ix.programIdIndex.toNat]? = some sdk.computeBudgetId

def Instruction.setsLimit (ix : Instruction) : Bool := ix.data.length = 5 ∧ ix.data[0]? = some 0x2

def Instruction.setsPrice (ix : Instruction) : Bool := ix.data.length = 9 ∧ ix.data[0]? = some 0x3

def Instruction.limit (ix : Instruction) : UInt32 := UInt32.ofNat (leNat ((ix.data.drop 1).take 4))

def Instruction.price (ix : Instruction) : UInt64 := UInt64.ofNat (leNat ((ix.data.drop 1).take 8))

/-- The compute unit limit a transaction requests: the first one set among its first eight instructions. -/
def TransactionView.requestedCus (sdk : Sdk) (view : TransactionView) : UInt32 :=
  (((view.instructions.take 8).find? fun ix => view.callsBudget sdk ix && ix.setsLimit).map
    Instruction.limit).getD 200000

/-- The compute unit price a transaction offers: the first one set among its first eight instructions. -/
def TransactionView.cuPrice (sdk : Sdk) (view : TransactionView) : UInt64 :=
  (((view.instructions.take 8).find? fun ix => view.callsBudget sdk ix && ix.setsPrice).map
    Instruction.price).getD 0

theorem scanInstruction_eq (acc : Option UInt32 × Option UInt64) (ix : Instruction) :
    scanInstruction acc ix = .ok (acc.1.or (if ix.setsLimit then some ix.limit else none),
      acc.2.or (if ix.setsPrice then some ix.price else none)) := by
  obtain ⟨limit, price⟩ := acc
  unfold scanInstruction
  by_cases hl : ix.data.length = 5 ∧ ix.data[0]? = some 0x2
  · have hp : ix.setsPrice = false := by simp [Instruction.setsPrice, hl.1]
    have hs : ix.setsLimit = true := by simpa [Instruction.setsLimit] using hl
    rw [if_pos hl, hs, hp]
    cases limit with
    | some _ => simp
    | none =>
      simp only [readUnaligned, hl.1, Nat.reduceAdd, le_refl, if_true, ok_bind]
      simp [Instruction.limit, pure, Except.pure]
  · have hs : ix.setsLimit = false := by simpa [Instruction.setsLimit] using hl
    rw [if_neg hl, hs]
    by_cases hp : ix.data.length = 9 ∧ ix.data[0]? = some 0x3
    · have hs' : ix.setsPrice = true := by simpa [Instruction.setsPrice] using hp
      rw [if_pos hp, hs']
      cases price with
      | some _ => simp
      | none =>
        simp only [readUnaligned, hp.1, Nat.reduceAdd, le_refl, if_true, ok_bind]
        simp [Instruction.price, pure, Except.pure]
    · have hs' : ix.setsPrice = false := by simpa [Instruction.setsPrice] using hp
      rw [if_neg hp, hs']
      simp

theorem or_find_cons {α β : Type} (a : Option β) (p : α → Bool) (f : α → β) (x : α) (xs : List α) :
    (a.or (if p x then some (f x) else none)).or ((xs.find? p).map f) = a.or (((x :: xs).find? p).map f) := by
  rw [List.find?_cons]
  cases a <;> cases p x <;> simp

/-- **The scan is two searches**: neither the order of the two kinds nor anything after the first of each matters. -/
theorem scan_eq : ∀ (ixs : List Instruction) (acc : Option UInt32 × Option UInt64),
    ixs.foldlM scanInstruction acc = .ok (acc.1.or ((ixs.find? Instruction.setsLimit).map Instruction.limit),
      acc.2.or ((ixs.find? Instruction.setsPrice).map Instruction.price))
  | [], acc => by simp [pure, Except.pure]
  | ix :: ixs, acc => by
    rw [List.foldlM_cons, scanInstruction_eq, ok_bind, scan_eq ixs]
    simp only [or_find_cons]

theorem totalFee_eq (sdk : Sdk) (view : TransactionView) :
    totalFee sdk view = .ok ⟨view.cuPrice sdk,
      5000 * UInt64.ofNat view.signatures.length + UInt64.ofNat
        (min ((view.requestedCus sdk).toNat * (view.cuPrice sdk).toNat / 1000000) (2 ^ 64 - 1)),
      view.requestedCus sdk⟩ := by
  unfold totalFee
  simp only [scan_eq, ok_bind, Option.none_or, List.find?_filter]
  simp only [TransactionView.requestedCus, TransactionView.cuPrice, TransactionView.callsBudget, Bool.decide_and,
    Bool.decide_eq_true]
  rfl

/-- **The limit and the price reported are the first ones set**, by a compute budget instruction of the right length
among the first eight; no read leaves the instruction's data. -/
theorem totalFee_requests (sdk : Sdk) (view : TransactionView) :
    ∃ fee, totalFee sdk view = .ok fee ∧
      fee.requestedCus = (((view.instructions.take 8).find? fun ix => view.callsBudget sdk ix && ix.setsLimit).map
        Instruction.limit).getD 200000 ∧
      fee.cuPrice = (((view.instructions.take 8).find? fun ix => view.callsBudget sdk ix && ix.setsPrice).map
        Instruction.price).getD 0 := by
  refine ⟨_, totalFee_eq sdk view, ?_, ?_⟩
  · rfl
  · rfl

/-! ## The sum -/

def TransactionView.exactFee (sdk : Sdk) (view : TransactionView) : Nat :=
  5000 * view.signatures.length + (view.requestedCus sdk).toNat * (view.cuPrice sdk).toNat / 1000000

/-- A clamped summand and a small positive one: the sum is clamped exactly when nothing had to be. -/
theorem clamped_add_eq_iff {n x : Nat} (hpos : 0 < n) (hn : n < 256) :
    (5000 * UInt64.ofNat n + UInt64.ofNat (min x (2 ^ 64 - 1))).toNat = min (2 ^ 64 - 1) (5000 * n + x) ↔
      5000 * n + x < 2 ^ 64 := by
  have hcost : (5000 * UInt64.ofNat n).toNat = 5000 * n := by
    rw [UInt64.toNat_mul, UInt64.toNat_ofNat']
    simp only [UInt64.reduceToNat]
    omega
  have hclamp : (UInt64.ofNat (min x (2 ^ 64 - 1))).toNat = min x (2 ^ 64 - 1) := by
    rw [UInt64.toNat_ofNat']
    omega
  rw [UInt64.toNat_add, hcost, hclamp]
  omega

/-- **The fee is exact or saturated, and no less than that of any transaction asking for less, exactly when the exact
fee fits in a word.**  A view counts its signatures in a byte. -/
theorem totalFee_saturates_iff (sdk : Sdk) (view : TransactionView) (hsig : view.signatures.length < 256) :
    ∃ fee, totalFee sdk view = .ok fee ∧
      ((fee.totalFee.toNat = min (2 ^ 64 - 1)
            (5000 * view.signatures.length + fee.requestedCus.toNat * fee.cuPrice.toNat / 1000000) ∧
          ∀ view' fee', view'.signatures.length = view.signatures.length → totalFee sdk view' = .ok fee' →
            fee'.requestedCus ≤ fee.requestedCus → fee'.cuPrice ≤ fee.cuPrice → fee'.totalFee ≤ fee.totalFee) ↔
        view.exactFee sdk < 2 ^ 64) := by
  refine ⟨_, totalFee_eq sdk view, fun h => (clamped_add_eq_iff view.signed hsig).1 h.1, fun hfits => ?_⟩
  have hexact := (clamped_add_eq_iff view.signed hsig).2 hfits
  refine ⟨hexact, fun view' fee' hsigs htotal hcus hprice => ?_⟩
  rw [totalFee_eq] at htotal
  cases htotal
  -- the cheaper transaction fits as well, so neither sum wraps
  have hle : view'.exactFee sdk ≤ view.exactFee sdk := by
    unfold TransactionView.exactFee
    rw [hsigs]
    exact Nat.add_le_add_left (Nat.div_le_div_right (Nat.mul_le_mul hcus hprice)) _
  have hexact' := (clamped_add_eq_iff view'.signed (by rw [hsigs]; exact hsig)).2 (lt_of_le_of_lt hle hfits)
  rw [UInt64.le_iff_toNat_le]
  refine le_trans (le_of_eq hexact') (le_trans ?_ (ge_of_eq hexact))
  exact min_le_min_left _ hle

def computeBudget : Pubkey :=
  ⟨#v[3, 6, 70, 111, 229, 33, 23, 50, 255, 236, 173, 186, 114, 195, 155, 231, 188, 140, 229, 187, 197, 247, 18, 107, 44,
    67, 155, 58, 64, 0, 0, 0]⟩

def budgetSdk : Sdk := { refusingSdk with computeBudgetId := computeBudget }

/-- One signature, and the compute budget program called twice: for a limit and for a price. -/
def budgetView (limit price : List UInt8) : TransactionView :=
  ⟨[Vector.replicate 64 1], [⟨Vector.replicate 32 1⟩, computeBudget], [⟨1, 2 :: limit⟩, ⟨1, 3 :: price⟩], Nat.one_pos⟩

/-- A million units at two micro-lamports each cost 5002. -/
theorem totalFee_saturates_small :
    (budgetView [64, 66, 15, 0] [2, 0, 0, 0, 0, 0, 0, 0]).exactFee budgetSdk < 2 ^ 64 ∧
      ∃ fee, totalFee budgetSdk (budgetView [64, 66, 15, 0] [2, 0, 0, 0, 0, 0, 0, 0]) = .ok fee ∧
        fee.totalFee.toNat = min (2 ^ 64 - 1) (5000 * 1 + fee.requestedCus.toNat * fee.cuPrice.toNat / 1000000) := by
  have hfits : (budgetView [64, 66, 15, 0] [2, 0, 0, 0, 0, 0, 0, 0]).exactFee budgetSdk < 2 ^ 64 := by decide +kernel
  obtain ⟨fee, htotal, hiff⟩ := totalFee_saturates_iff budgetSdk (budgetView [64, 66, 15, 0] [2, 0, 0, 0, 0, 0, 0, 0])
    (by decide)
  exact ⟨hfits, fee, htotal, (hiff.2 hfits).1⟩

/-- The greatest limit at the greatest price costs 4999: the clamped compute cost and the signature cost wrap around. -/
theorem totalFee_wraps :
    ∃ fee, totalFee budgetSdk (budgetView (List.replicate 4 255) (List.replicate 8 255)) = .ok fee ∧
      fee.requestedCus = 4294967295 ∧ fee.cuPrice = 18446744073709551615 ∧ fee.totalFee = 4999 ∧
      fee.totalFee.toNat ≠ min (2 ^ 64 - 1) (5000 * 1 + fee.requestedCus.toNat * fee.cuPrice.toNat / 1000000) := by
  refine ⟨_, totalFee_eq budgetSdk _, ?_, ?_, ?_, ?_⟩
  · decide +kernel
  · decide +kernel
  · decide +kernel
  · decide +kernel

end Qos
