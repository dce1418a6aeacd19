import SolanaQos.Crates
import SolanaQos.Runs
/-!
# The bounded min-max heap (`minmax/src/lib.rs`)

`push` inserts first and pops the minimum when the length hits `n` exactly, so at most `n - 1` values are held between
calls.  `get_max_values` borrows the heap as an iterator whose `next` is `pop_max`; a caller may poll it as often as it
likes and drop it (`takeMax`).  The order is a preorder: two transactions with equal scores are tied without being
equal.

* `push_ok`: below `n - 1` values a push only inserts; at `n - 1` it hands back a least one of the `n`, which may be
  the one it was given.
* `takeMax_spec` and `length_takeMax`: `k` polls yield `k` values or all there are, in descending order, each at least
  as great as everything left.
* `MinMaxHeap.run_ok`: over a run, what was pushed is what is held, what was handed back and what was yielded, counted
  with repetitions.
* `MinMaxHeap.run_pushes`: a run of pushes keeps the greatest values; once one was handed back, everything held is at
  least as great as everything handed back.

`minMaxHeap_run` states them of one run, for any heap with the crate's laws and any `n ≥ 1`.
-/
namespace Qos

open Runs

variable {T : Type} [Preorder T] {H : HeapCrate T} {n : Nat}

structure MinMaxHeap {T : Type} [Preorder T] (H : HeapCrate T) (n : Nat) where
  inner : H.Heap

namespace MinMaxHeap

def new : MinMaxHeap H n := ⟨H.new⟩

def items (h : MinMaxHeap H n) : Multiset T := H.items h.inner

def len (h : MinMaxHeap H n) : Nat := H.len h.inner

def push (h : MinMaxHeap H n) (value : T) : Except Panic (Option T × MinMaxHeap H n) :=
  let inner := H.push h.inner value
  if H.len inner = n then
    match H.popMin inner with
    | some (minimum, inner) => .ok (some minimum, ⟨inner⟩)
    | none => .error .unwrapNone
  else
    .ok (none, ⟨inner⟩)

def next (h : MinMaxHeap H n) : Option T × MinMaxHeap H n :=
  match H.popMax h.inner with
  | some (x, inner) => (some x, ⟨inner⟩)
  | none => (none, h)

/-- `get_max_values`, its iterator polled `k` times and dropped. -/
def takeMax : Nat → MinMaxHeap H n → List T × MinMaxHeap H n
  | 0, h => ([], h)
  | k + 1, h =>
    match h.next with
    | (some x, h) => (x :: (takeMax k h).1, (takeMax k h).2)
    | (none, h) => takeMax k h

theorem len_eq (h : MinMaxHeap H n) : h.len = h.items.card := H.len_eq h.inner

theorem items_new : (new : MinMaxHeap H n).items = 0 := H.items_new

theorem len_new : (new : MinMaxHeap H n).len = 0 := by rw [len_eq, items_new, Multiset.card_zero]

theorem next_none {h h' : MinMaxHeap H n} (e : h.next = (none, h')) : h' = h ∧ h.items = 0 := by
  unfold next at e
  split at e
  · cases e
  · rename_i hn
    cases e
    exact ⟨rfl, H.popMax_none _ hn⟩

theorem next_some {h h' : MinMaxHeap H n} {x : T} (e : h.next = (some x, h')) :
    h.items = x ::ₘ h'.items ∧ ∀ y ∈ h'.items, y ≤ x := by
  unfold next at e
  split at e
  · rename_i y inner hs
    cases e
    exact H.popMax_some _ _ _ hs
  · cases e

/-- **What `push` does**: below `n - 1` values it only inserts; at `n - 1` it hands back a least one. -/
theorem push_ok (h : MinMaxHeap H n) (hlt : h.len < n) (v : T) :
    ∃ ret h', h.push v = .ok (ret, h') ∧ v ::ₘ h.items = h'.items + ret.elim 0 (fun x => {x}) ∧ h'.len < n ∧
      (ret.isSome ↔ h.len = n - 1) ∧ ∀ x, ret = some x → ∀ y ∈ h'.items, x ≤ y := by
  have hlen : H.len (H.push h.inner v) = h.len + 1 := by
    rw [H.len_eq, H.items_push, Multiset.card_cons, h.len_eq]
    rfl
  by_cases hfull : H.len (H.push h.inner v) = n
  · cases hp : H.popMin (H.push h.inner v) with
    | none =>
      have hz := H.popMin_none _ hp
      rw [H.items_push] at hz
      exact absurd hz (Multiset.cons_ne_zero)
    | some r =>
      obtain ⟨x, inner⟩ := r
      obtain ⟨hitems, hle⟩ := H.popMin_some _ _ _ hp
      rw [H.items_push] at hitems
      refine ⟨some x, ⟨inner⟩, ?_, ?_, ?_, ?_, ?_⟩
      · simp only [push, hfull, if_true, hp]
      · rw [Option.elim_some, Multiset.add_comm, Multiset.singleton_add]
        exact hitems
      · have hcard := congrArg Multiset.card hitems
        rw [Multiset.card_cons, Multiset.card_cons] at hcard
        rw [len_eq] at hlen hlt ⊢
        show (H.items inner).card < n
        have : (H.items h.inner).card = h.items.card := rfl
        omega
      · simp only [Option.isSome_some, true_iff]
        omega
      · intro y hy
        cases hy
        exact hle
  · refine ⟨none, ⟨H.push h.inner v⟩, ?_, ?_, ?_, ?_, ?_⟩
    · simp only [push, hfull, if_false]
    · rw [Option.elim_none, Multiset.add_zero]
      exact (H.items_push h.inner v).symm
    · show H.len (H.push h.inner v) < n
      omega
    · simp only [Option.isSome_none, Bool.false_eq_true, false_iff]
      omega
    · intro x hx
      cases hx

/-- **What a partly consumed iterator yields**: values in descending order, each above everything still held. -/
theorem takeMax_spec : ∀ (k : Nat) (h : MinMaxHeap H n),
    h.items = ((takeMax k h).1 : Multiset T) + (takeMax k h).2.items ∧
      (takeMax k h).1.Pairwise (· ≥ ·) ∧ ∀ x ∈ (takeMax k h).1, ∀ y ∈ (takeMax k h).2.items, y ≤ x
  | 0, h => by
    refine ⟨by simp [takeMax], List.Pairwise.nil, ?_⟩
    intro x hx
    cases hx
  | k + 1, h => by
    unfold takeMax
    split
    · rename_i x h' e
      obtain ⟨hitems, hle⟩ := next_some e
      obtain ⟨hsplit, hsorted, habove⟩ := takeMax_spec k h'
      refine ⟨?_, List.pairwise_cons.2 ⟨?_, hsorted⟩, ?_⟩
      · rw [hitems, hsplit, ← Multiset.cons_coe, Multiset.cons_add]
      · intro y hy
        exact hle y (by rw [hsplit]; exact Multiset.mem_add.2 (Or.inl hy))
      · intro z hz y hy
        rcases List.mem_cons.1 hz with rfl | hz
        · exact hle y (by rw [hsplit]; exact Multiset.mem_add.2 (Or.inr hy))
        · exact habove z hz y hy
    · rename_i h' e
      obtain ⟨rfl, -⟩ := next_none e
      exact takeMax_spec k h'

theorem length_takeMax : ∀ (k : Nat) (h : MinMaxHeap H n), (takeMax k h).1.length = min k h.len
  | 0, h => (Nat.zero_min _).symm
  | k + 1, h => by
    unfold takeMax
    split
    · rename_i x h' e
      have hcard := congrArg Multiset.card (next_some e).1
      rw [Multiset.card_cons, ← len_eq, ← len_eq] at hcard
      rw [List.length_cons, length_takeMax k h', hcard, Nat.succ_min_succ]
    · rename_i h' e
      obtain ⟨rfl, hz⟩ := next_none e
      rw [length_takeMax k h', len_eq, hz, Multiset.card_zero, Nat.min_zero, Nat.min_zero]

theorem len_takeMax (k : Nat) (h : MinMaxHeap H n) : (takeMax k h).2.len ≤ h.len := by
  have := congrArg Multiset.card (takeMax_spec k h).1
  rw [Multiset.card_add] at this
  rw [len_eq, len_eq]
  omega

end MinMaxHeap

/-! ## Runs -/

inductive HeapOp (T : Type)
  | push (value : T)
  | drain (steps : Nat)

inductive HeapRet (T : Type)
  | pushed (evicted : Option T)
  | drained (values : List T)

def MinMaxHeap.step (h : MinMaxHeap H n) : HeapOp T → Except Panic (HeapRet T × MinMaxHeap H n)
  | .push v => do
    let (ret, h) ← h.push v
    return (.pushed ret, h)
  | .drain k => return (.drained (takeMax k h).1, (takeMax k h).2)

def pushedBy : List (HeapOp T) → Multiset T
  | [] => 0
  | .push v :: ops => v ::ₘ pushedBy ops
  | .drain _ :: ops => pushedBy ops

def returnedBy : List (HeapRet T) → Multiset T
  | [] => 0
  | .pushed ret :: os => ret.elim 0 (fun x => {x}) + returnedBy os
  | .drained _ :: os => returnedBy os

def yieldedBy : List (HeapRet T) → Multiset T
  | [] => 0
  | .pushed _ :: os => yieldedBy os
  | .drained l :: os => (l : Multiset T) + yieldedBy os

def HeapOp.isPush : HeapOp T → Bool
  | .push _ => true
  | .drain _ => false

theorem MinMaxHeap.step_ok (h : MinMaxHeap H n) (hlt : h.len < n) (op : HeapOp T) :
    ∃ o h', h.step op = .ok (o, h') ∧ h'.len < n ∧
      pushedBy [op] + h.items = h'.items + returnedBy [o] + yieldedBy [o] := by
  cases op with
  | push v =>
    obtain ⟨ret, h', e, hitems, hlt', -, -⟩ := h.push_ok hlt v
    refine ⟨.pushed ret, h', by simp only [MinMaxHeap.step, e, ok_bind]; rfl, hlt', ?_⟩
    simpa [pushedBy, returnedBy, yieldedBy] using hitems
  | drain k =>
    refine ⟨_, _, rfl, Nat.lt_of_le_of_lt (len_takeMax k h) hlt, ?_⟩
    have := (takeMax_spec k h).1
    simp only [pushedBy, returnedBy, yieldedBy, zero_add, add_zero]
    rw [this, Multiset.add_comm]

omit [Preorder T] in
theorem pushedBy_cons (op : HeapOp T) (ops : List (HeapOp T)) : pushedBy (op :: ops) = pushedBy [op] + pushedBy ops := by
  cases op <;> simp [pushedBy, Multiset.singleton_add]

omit [Preorder T] in
theorem returnedBy_cons (o : HeapRet T) (os : List (HeapRet T)) :
    returnedBy (o :: os) = returnedBy [o] + returnedBy os := by
  cases o <;> simp [returnedBy]

omit [Preorder T] in
theorem yieldedBy_cons (o : HeapRet T) (os : List (HeapRet T)) :
    yieldedBy (o :: os) = yieldedBy [o] + yieldedBy os := by
  cases o <;> simp [yieldedBy]

/-- **Nothing is lost**: over a whole run, what was pushed is what is held, was handed back or was yielded. -/
theorem MinMaxHeap.run_ok : ∀ (ops : List (HeapOp T)) (h : MinMaxHeap H n), h.len < n →
    ∃ os h', run MinMaxHeap.step h ops = .ok (os, h') ∧ h'.len < n ∧
      pushedBy ops + h.items = h'.items + returnedBy os + yieldedBy os
  | [], h, hlt => ⟨[], h, rfl, hlt, by simp [pushedBy, returnedBy, yieldedBy]⟩
  | op :: ops, h, hlt => by
    obtain ⟨o, h₁, e₁, hlt₁, hbal₁⟩ := h.step_ok hlt op
    obtain ⟨os, h₂, e₂, hlt₂, hbal₂⟩ := run_ok ops h₁ hlt₁
    refine ⟨o :: os, h₂, by simp [run, e₁, e₂], hlt₂, ?_⟩
    rw [pushedBy_cons, returnedBy_cons, yieldedBy_cons]
    calc pushedBy [op] + pushedBy ops + h.items
        = pushedBy ops + (pushedBy [op] + h.items) := by abel
      _ = (pushedBy ops + h₁.items) + (returnedBy [o] + yieldedBy [o]) := by rw [hbal₁]; abel
      _ = h₂.items + (returnedBy [o] + returnedBy os) + (yieldedBy [o] + yieldedBy os) := by rw [hbal₂]; abel

theorem replace_least {v least : T} {s s' : Multiset T} (hitems : v ::ₘ s = s' + {least}) (hmin : ∀ y ∈ s', least ≤ y) :
    s'.card = s.card ∧ ∀ x, (∀ y ∈ s, x ≤ y) → ∀ y ∈ s', x ≤ y := by
  constructor
  · have hcard := congrArg Multiset.card hitems
    rw [Multiset.card_cons, Multiset.card_add, Multiset.card_singleton] at hcard
    omega
  · intro x hx y hy
    have hleast : least ∈ v ::ₘ s := by rw [hitems]; simp
    rcases Multiset.mem_cons.1 hleast with rfl | hleast
    · rw [Multiset.add_comm, Multiset.singleton_add, Multiset.cons_inj_right] at hitems
      exact hx y (hitems ▸ hy)
    · exact le_trans (hx least hleast) (hmin y hy)

/-- **A run of pushes keeps the greatest**: once `push` hands a value back the heap is at its bound, and everything
handed back is below everything held. -/
theorem MinMaxHeap.run_pushes : ∀ (ops : List (HeapOp T)) (h : MinMaxHeap H n) (os : List (HeapRet T))
    (h' : MinMaxHeap H n), h.len < n → (∀ op ∈ ops, op.isPush = true) → run MinMaxHeap.step h ops = .ok (os, h') →
    yieldedBy os = 0 ∧ (returnedBy os ≠ 0 → h'.len = n - 1) ∧ (h.len = n - 1 → h'.len = n - 1) ∧
      (∀ x ∈ returnedBy os, ∀ y ∈ h'.items, x ≤ y) ∧
      ∀ x, (∀ y ∈ h.items, x ≤ y) → h.len = n - 1 → ∀ y ∈ h'.items, x ≤ y
  | [], h, os, h', hlt, hpush, e => by
    cases e
    exact ⟨rfl, fun hne => absurd rfl hne, id, fun x hx => absurd hx (Multiset.notMem_zero x), fun x hx _ => hx⟩
  | op :: ops, h, os, h', hlt, hpush, e => by
    obtain ⟨o, h₁, os', e₁, e₂, rfl⟩ := run_cons_ok e
    cases op with
    | drain k =>
      have := hpush (.drain k) (by simp)
      cases this
    | push v =>
      obtain ⟨ret, h₁', ep, hitems, hlt₁, hret, hmin⟩ := h.push_ok hlt v
      have hstep : h.step (.push v) = .ok (.pushed ret, h₁') := by simp only [MinMaxHeap.step, ep, ok_bind]; rfl
      rw [hstep] at e₁
      cases e₁
      obtain ⟨hy, hr, hfull, hbelow, hkeep⟩ :=
        run_pushes ops h₁ os' h' hlt₁ (fun op hop => hpush op (by simp [hop])) e₂
      -- a push at the bound replaces a least value
      have hreplace : h.len = n - 1 → h₁.items.card = h.items.card ∧
          ∀ x, (∀ y ∈ h.items, x ≤ y) → ∀ y ∈ h₁.items, x ≤ y := by
        intro hl
        obtain ⟨least, rfl⟩ := Option.isSome_iff_exists.1 (hret.2 hl)
        exact replace_least hitems (hmin least rfl)
      have hstay : h.len = n - 1 → h₁.len = n - 1 := by
        intro hl
        rw [len_eq, (hreplace hl).1, ← len_eq, hl]
      refine ⟨hy, ?_, fun hl => hfull (hstay hl), ?_, fun x hx hl => hkeep x ((hreplace hl).2 x hx) (hstay hl)⟩
      · intro hne
        by_cases hl : h.len = n - 1
        · exact hfull (hstay hl)
        · have hnone : ret = none := by
            cases ret with
            | none => rfl
            | some x => exact absurd (hret.1 rfl) hl
          subst hnone
          exact hr (by simpa [returnedBy] using hne)
      · intro x hx y hy'
        rw [returnedBy_cons, Multiset.mem_add] at hx
        rcases hx with hx | hx
        · cases ret with
          | none => simp [returnedBy] at hx
          | some m =>
            obtain rfl : x = m := by simpa [returnedBy] using hx
            exact hkeep x (hmin x rfl) (hstay (hret.1 rfl)) y hy'
        · exact hbelow x hx y hy'

/-- **The bounded heap, over every run.**  At most `n - 1` values are held; pushed values are held, handed back or
yielded; `push` hands back exactly at `n - 1` values, and a least one; an iterator polled `k` times yields `k` of them or
all, in descending order and above what stays; and a run of pushes holds the `n - 1` greatest values, ties aside. -/
theorem minMaxHeap_run (n : Nat) (hn : 1 ≤ n) (H : HeapCrate T) (ops : List (HeapOp T)) :
    ∃ os h, run MinMaxHeap.step (MinMaxHeap.new : MinMaxHeap H n) ops = .ok (os, h) ∧
      h.len ≤ n - 1 ∧
      pushedBy ops = h.items + returnedBy os + yieldedBy os ∧
      (∀ v, ∃ ret h', h.push v = .ok (ret, h') ∧ (ret.isSome ↔ h.len = n - 1) ∧
        ∀ x, ret = some x → ∀ y ∈ h'.items, x ≤ y) ∧
      (∀ k, (MinMaxHeap.takeMax k h).1.length = min k h.len ∧ (MinMaxHeap.takeMax k h).1.Pairwise (· ≥ ·) ∧
        ∀ x ∈ (MinMaxHeap.takeMax k h).1, ∀ y ∈ (MinMaxHeap.takeMax k h).2.items, y ≤ x) ∧
      ((∀ op ∈ ops, op.isPush = true) →
        pushedBy ops = h.items + returnedBy os ∧ h.items.card = min (n - 1) (pushedBy ops).card ∧
          ∀ x ∈ returnedBy os, ∀ y ∈ h.items, x ≤ y) := by
  have h₀ : (MinMaxHeap.new : MinMaxHeap H n).len < n := by
    rw [MinMaxHeap.len_new]
    omega
  obtain ⟨os, h, e, hlt, hbal⟩ := MinMaxHeap.run_ok ops _ h₀
  rw [MinMaxHeap.items_new, add_zero] at hbal
  refine ⟨os, h, e, by omega, hbal, fun v => ?_, fun k => ⟨MinMaxHeap.length_takeMax k h, (MinMaxHeap.takeMax_spec k h).2⟩,
    fun hpush => ?_⟩
  · obtain ⟨ret, h', ep, -, -, hret, hmin⟩ := h.push_ok hlt v
    exact ⟨ret, h', ep, hret, hmin⟩
  · obtain ⟨hy, hr, -, hbelow, -⟩ := MinMaxHeap.run_pushes ops _ os h h₀ hpush e
    rw [hy, add_zero] at hbal
    refine ⟨hbal, ?_, hbelow⟩
    have hcard := congrArg Multiset.card hbal
    rw [Multiset.card_add] at hcard
    have hlen := h.len_eq
    by_cases hz : returnedBy os = 0
    · rw [hz, Multiset.card_zero] at hcard
      omega
    · have := hr hz
      omega

/-- Capacity four: three values are held, the fourth push hands back the least one, and two more polls yield both. -/
theorem minMaxHeap_run_four :
    1 ≤ 4 ∧ ∃ os h, run MinMaxHeap.step (MinMaxHeap.new : MinMaxHeap (listHeap Nat Nat.le_total) 4)
      [.push 3, .push 1, .push 2, .push 4, .drain 1] = .ok (os, h) ∧ h.len ≤ 4 - 1 ∧
      pushedBy [.push 3, .push 1, .push 2, .push 4, .drain 1] = h.items + returnedBy os + yieldedBy os ∧
      (MinMaxHeap.takeMax 5 h).1.length = min 5 h.len := by
  obtain ⟨os, h, e, hlen, hbal, -, hdrain, -⟩ := minMaxHeap_run 4 (by decide) (listHeap Nat Nat.le_total)
    [.push 3, .push 1, .push 2, .push 4, .drain 1]
  exact ⟨by decide, os, h, e, hlen, hbal, (hdrain 5).1⟩

end Qos
