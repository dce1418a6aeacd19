import Mathlib
/-!
# Red-black search trees

What the colours say about the root: a red node has black children and all paths to a leaf pass the same number of
black nodes, so a tree of at least three nodes has a node on either side of its root (`Balanced.children`), and the
root is neither its least nor its greatest key (`Valid.root_interior`).  For with an empty side the other side has no
black node and no two red ones in a row, so it is empty or a single node.

`ofList` colours the tree that halves a sorted list: black down to the last level, which is red.  It is a valid tree
with the keys of the list (`ofList_spec`), so every sorted list is the key list of a valid tree.  Insertion and removal
are not here: what is claimed of a tree that some crate rebalances is claimed of all valid trees.
-/
namespace RedBlack

inductive Color
  | red
  | black
  deriving DecidableEq, Repr

inductive Tree (K : Type)
  | leaf
  | node (c : Color) (l : Tree K) (k : K) (r : Tree K)

variable {K : Type}

namespace Tree

def keys : Tree K → List K
  | leaf => []
  | node _ l k r => l.keys ++ k :: r.keys

def root : Tree K → Option K
  | leaf => none
  | node _ _ k _ => some k

/-- **The colour rules**: no red child of a red node, and `n` black nodes on every path. -/
inductive Balanced : Tree K → Color → Nat → Prop
  | leaf : Balanced leaf .black 0
  | red {l r : Tree K} {n : Nat} (k : K) : Balanced l .black n → Balanced r .black n → Balanced (node .red l k r) .red n
  | black {l r : Tree K} {cl cr : Color} {n : Nat} (k : K) : Balanced l cl n → Balanced r cr n →
      Balanced (node .black l k r) .black (n + 1)

structure Valid [LinearOrder K] (t : Tree K) : Prop where
  ordered : t.keys.Pairwise (· < ·)
  balanced : ∃ c n, Balanced t c n

theorem Balanced.keys_ne_nil {t : Tree K} {c : Color} {n : Nat} (h : Balanced t c (n + 1)) : t.keys ≠ [] := by
  cases h with
  | red k hl hr => simp [keys]
  | black k hl hr => simp [keys]

theorem Balanced.keys_eq_nil {t : Tree K} (h : Balanced t .black 0) : t.keys = [] := by
  cases h with
  | leaf => rfl

theorem Balanced.length_keys_le {t : Tree K} {c : Color} (h : Balanced t c 0) : t.keys.length ≤ 1 := by
  cases h with
  | leaf => exact Nat.zero_le 1
  | red k hl hr =>
    rw [keys, hl.keys_eq_nil, hr.keys_eq_nil]
    exact le_refl 1

theorem Balanced.children {l r : Tree K} {k : K} {c c' : Color} {n : Nat} (h : Balanced (node c l k r) c' n)
    (hsize : 3 ≤ (node c l k r).keys.length) : l.keys ≠ [] ∧ r.keys ≠ [] := by
  rw [keys, List.length_append, List.length_cons] at hsize
  cases h with
  | @red _ _ n _ hl hr =>
    cases n with
    | zero =>
      rw [hl.keys_eq_nil, hr.keys_eq_nil] at hsize
      exact absurd hsize (by simp)
    | succ n => exact ⟨hl.keys_ne_nil, hr.keys_ne_nil⟩
  | @black _ _ _ _ n _ hl hr =>
    cases n with
    | zero =>
      have hl' := hl.length_keys_le
      have hr' := hr.length_keys_le
      exact ⟨List.ne_nil_of_length_pos (by omega), List.ne_nil_of_length_pos (by omega)⟩
    | succ n => exact ⟨hl.keys_ne_nil, hr.keys_ne_nil⟩

/-- **The root of three or more nodes is neither the least nor the greatest key.** -/
theorem Valid.root_interior [LinearOrder K] {t : Tree K} (h : t.Valid) (hsize : 3 ≤ t.keys.length) {k : K}
    (hk : t.root = some k) : (∃ a ∈ t.keys, a < k) ∧ ∃ b ∈ t.keys, k < b := by
  obtain ⟨hord, c, n, hbal⟩ := h
  cases t with
  | leaf => cases hk
  | node c' l k' r =>
    cases hk
    obtain ⟨hl, hr⟩ := hbal.children hsize
    obtain ⟨-, hright, hcross⟩ := List.pairwise_append.1 hord
    obtain ⟨a, ha⟩ := List.exists_mem_of_ne_nil _ hl
    obtain ⟨b, hb⟩ := List.exists_mem_of_ne_nil _ hr
    constructor
    · exact ⟨a, List.mem_append_left _ ha, hcross a ha k List.mem_cons_self⟩
    · exact ⟨b, List.mem_append_right _ (List.mem_cons_of_mem k hb), (List.pairwise_cons.1 hright).1 b hb⟩

/-! ## A tree of a given list -/

/-- Halve the list: `h` levels of black nodes over one of red ones. -/
def halve : Nat → List K → Tree K
  | 0, l =>
    match l.drop (l.length / 2) with
    | [] => leaf
    | k :: _ => node .red leaf k leaf
  | h + 1, l =>
    match l.drop (l.length / 2) with
    | [] => leaf
    | k :: r => node .black (halve h (l.take (l.length / 2))) k (halve h r)

def ofList (l : List K) : Tree K := halve (Nat.log2 (l.length + 1)) l

theorem root_halve (h : Nat) (l : List K) : (halve h l).root = l[l.length / 2]? := by
  rw [← List.head?_drop]
  cases h with
  | zero =>
    unfold halve
    cases l.drop (l.length / 2) <;> rfl
  | succ h =>
    unfold halve
    cases l.drop (l.length / 2) <;> rfl

/-- A list of between `2 ^ h - 1` and `2 ^ (h + 1) - 1` keys fills the black levels and no more than the red one. -/
theorem halve_spec : ∀ (h : Nat) (l : List K), 2 ^ h ≤ l.length + 1 → l.length + 1 ≤ 2 ^ (h + 1) →
    (halve h l).keys = l ∧ ∃ c, Balanced (halve h l) c h
  | 0, [], _, _ => by
    rw [show halve 0 ([] : List K) = leaf by simp [halve]]
    exact ⟨rfl, .black, .leaf⟩
  | 0, [k], _, _ => by
    rw [show halve 0 [k] = node .red leaf k leaf by simp [halve]]
    exact ⟨rfl, .red, .red k .leaf .leaf⟩
  | 0, k :: k' :: l, _, hle => by
    simp only [List.length_cons] at hle
    omega
  | h + 1, l, hge, hle => by
    have hpow : 2 ^ (h + 1) = 2 * 2 ^ h := Nat.pow_succ'
    have hpow' : 2 ^ (h + 2) = 2 * 2 ^ (h + 1) := Nat.pow_succ'
    have hpos : 0 < 2 ^ h := Nat.two_pow_pos h
    cases hd : l.drop (l.length / 2) with
    | nil =>
      rw [List.drop_eq_nil_iff] at hd
      omega
    | cons k r =>
      have hlen : r.length + 1 = l.length - l.length / 2 := by
        rw [← List.length_drop, hd, List.length_cons]
      have htake : (l.take (l.length / 2)).length = l.length / 2 := by
        rw [List.length_take]
        omega
      obtain ⟨hkl, cl, hl⟩ := halve_spec h (l.take (l.length / 2)) (by omega) (by omega)
      obtain ⟨hkr, cr, hr⟩ := halve_spec h r (by omega) (by omega)
      simp only [halve, hd]
      refine ⟨?_, .black, .black k hl hr⟩
      rw [keys, hkl, hkr, ← hd, List.take_append_drop]

theorem ofList_spec (l : List K) : (ofList l).keys = l ∧ ∃ c n, Balanced (ofList l) c n := by
  have hne : l.length + 1 ≠ 0 := Nat.succ_ne_zero _
  obtain ⟨hkeys, c, hbal⟩ := halve_spec (Nat.log2 (l.length + 1)) l ((Nat.le_log2 hne).1 (le_refl _))
    (le_of_lt ((Nat.log2_lt hne).1 (Nat.lt_succ_self _)))
  exact ⟨hkeys, c, _, hbal⟩

end Tree

end RedBlack
