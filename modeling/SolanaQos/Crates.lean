import Mathlib
/-!
# The third-party crates the program rests on

The min-max heap, the red-black tree and the channels are not part of the repository.  Each is a structure here: its
operations, and as fields the laws that the code relies on.  A result about the program holds for every implementation
of the laws; an executable one (`listHeap`, `sortedTree`, `listQue`) shows that they can be met and runs the examples.

* `HeapCrate`: a multiset of values, with pops of a greatest and of a least one.
* `QueCrate`: a queue of unread messages; a pop takes the front one or finds none.
* `Sokoban`: a finite ordered map.  An insert of a new key into a full tree is refused and nothing else happens; what
  the tree lists is in the order of its keys; the root of a tree that is not empty is some entry of it.

The laws say nothing of which value among equals a pop takes, nor of which entry is the root.  `support` is the set of
keys of a map, with one lemma for each operation; the tables of the score model are compared by it.
-/
namespace Qos

/-- Where a run stops: a panic, or an unchecked access outside its buffer. -/
inductive Panic
  | unwrapNone
  | unreachable
  | noTransmitter
  | divideByZero
  | outOfBounds
  deriving DecidableEq, Repr

/-! ## `min_max_heap::MinMaxHeap<T>` -/

/-- **A multiset with extremal pops.** -/
structure HeapCrate (T : Type) [Preorder T] where
  Heap : Type
  items : Heap → Multiset T
  new : Heap
  push : Heap → T → Heap
  popMin : Heap → Option (T × Heap)
  popMax : Heap → Option (T × Heap)
  len : Heap → Nat
  items_new : items new = 0
  items_push : ∀ h x, items (push h x) = x ::ₘ items h
  popMin_none : ∀ h, popMin h = none → items h = 0
  popMin_some : ∀ h x h', popMin h = some (x, h') → items h = x ::ₘ items h' ∧ ∀ y ∈ items h', x ≤ y
  popMax_none : ∀ h, popMax h = none → items h = 0
  popMax_some : ∀ h x h', popMax h = some (x, h') → items h = x ::ₘ items h' ∧ ∀ y ∈ items h', y ≤ x
  len_eq : ∀ h, len h = (items h).card

def extract {T : Type} (R : T → T → Bool) : List T → Option (T × List T)
  | [] => none
  | x :: xs =>
    match extract R xs with
    | none => some (x, xs)
    | some (y, ys) => if R x y then some (x, xs) else some (y, x :: ys)

theorem extract_none {T : Type} {R : T → T → Bool} : ∀ {l : List T}, extract R l = none → l = []
  | [], _ => rfl
  | x :: xs, h => by
    unfold extract at h
    split at h
    · cases h
    · split at h <;> cases h

theorem extract_some {T : Type} {R : T → T → Bool} (hrefl : ∀ a b, R a b = true ∨ R b a = true)
    (htrans : ∀ a b c, R a b = true → R b c = true → R a c = true) : ∀ {l : List T} {x : T} {rest : List T},
    extract R l = some (x, rest) → l.Perm (x :: rest) ∧ ∀ y ∈ rest, R x y = true
  | [], _, _, h => by cases h
  | z :: zs, x, rest, h => by
    unfold extract at h
    split at h
    · rename_i hn
      cases h
      rw [extract_none hn]
      exact ⟨List.Perm.refl _, by simp⟩
    · rename_i y ys hs
      obtain ⟨hperm, hle⟩ := extract_some hrefl htrans hs
      split at h
      · rename_i hzy
        cases h
        refine ⟨List.Perm.refl _, fun w hw => ?_⟩
        rcases List.mem_cons.1 (hperm.mem_iff.1 hw) with rfl | hw
        · exact hzy
        · exact htrans _ _ _ hzy (hle w hw)
      · rename_i hzy
        cases h
        refine ⟨(List.Perm.cons z hperm).trans (List.Perm.swap x z ys), fun w hw => ?_⟩
        rcases List.mem_cons.1 hw with rfl | hw
        · exact (hrefl x w).resolve_right hzy
        · exact hle w hw

def listHeap (T : Type) [Preorder T] [DecidableLE T] (total : ∀ a b : T, a ≤ b ∨ b ≤ a) : HeapCrate T where
  Heap := List T
  items := fun l => (l : Multiset T)
  new := []
  push := fun l x => x :: l
  popMin := extract (fun a b => decide (a ≤ b))
  popMax := extract (fun a b => decide (b ≤ a))
  len := List.length
  items_new := rfl
  items_push := fun _ _ => rfl
  popMin_none := fun l h => by rw [extract_none h]; rfl
  popMin_some := fun l x rest h => by
    obtain ⟨hperm, hle⟩ := extract_some (fun a b => by simpa using total a b)
      (fun a b c => by simpa using le_trans) h
    exact ⟨Multiset.coe_eq_coe.2 hperm, fun y hy => by simpa using hle y hy⟩
  popMax_none := fun l h => by rw [extract_none h]; rfl
  popMax_some := fun l x rest h => by
    obtain ⟨hperm, hle⟩ := extract_some (fun a b => by simpa using total b a)
      (fun a b c => by simpa using fun h₁ h₂ => le_trans h₂ h₁) h
    exact ⟨Multiset.coe_eq_coe.2 hperm, fun y hy => by simpa using hle y hy⟩
  len_eq := fun _ => rfl

/-! ## `que::headless_spmc::consumer::Consumer<T, N>` -/

/-- **A queue of unread messages.** -/
structure QueCrate (T : Type) where
  Consumer : Type
  unread : Consumer → List T
  pop : Consumer → Option T × Consumer
  pop_nil : ∀ c, unread c = [] → (pop c).1 = none ∧ unread (pop c).2 = []
  pop_cons : ∀ c x rest, unread c = x :: rest → (pop c).1 = some x ∧ unread (pop c).2 = rest

def listQue (T : Type) : QueCrate T where
  Consumer := List T
  unread := id
  pop := fun l => (l.head?, l.tail)
  pop_nil := fun c h => by cases h; exact ⟨rfl, rfl⟩
  pop_cons := fun c x rest h => by cases h; exact ⟨rfl, rfl⟩

/-! ## `sokoban::RedBlackTree<K, V, MAX_SIZE>` -/

/-- **A finite ordered map of bounded size.**  A tree declared with size `m` holds `capacity m` entries; inserting a new
key into a full tree changes nothing; iteration visits the keys in order; the root is some entry, and removing it
returns some entry. -/
structure Sokoban where
  Tree : (K V : Type) → [LinearOrder K] → Nat → Type
  capacity : Nat → Nat
  new : ∀ {K V : Type} [LinearOrder K] {m : Nat}, Tree K V m
  get : ∀ {K V : Type} [LinearOrder K] {m : Nat}, Tree K V m → K → Option V
  keys : ∀ {K V : Type} [LinearOrder K] {m : Nat}, Tree K V m → List K
  insert : ∀ {K V : Type} [LinearOrder K] {m : Nat}, Tree K V m → K → V → Tree K V m
  -- a write through `get_mut` or `iter_mut`
  set : ∀ {K V : Type} [LinearOrder K] {m : Nat}, Tree K V m → K → V → Tree K V m
  remove : ∀ {K V : Type} [LinearOrder K] {m : Nat}, Tree K V m → K → Tree K V m
  root : ∀ {K V : Type} [LinearOrder K] {m : Nat}, Tree K V m → Option K
  removeRoot : ∀ {K V : Type} [LinearOrder K] {m : Nat}, Tree K V m → Option (K × Tree K V m)
  keys_sorted : ∀ {K V : Type} [LinearOrder K] {m : Nat} (t : Tree K V m), (keys t).Pairwise (· < ·)
  mem_keys : ∀ {K V : Type} [LinearOrder K] {m : Nat} (t : Tree K V m) (k : K), k ∈ keys t ↔ (get t k).isSome
  get_new : ∀ {K V : Type} [LinearOrder K] {m : Nat} (k : K), get (new : Tree K V m) k = none
  get_insert : ∀ {K V : Type} [LinearOrder K] {m : Nat} (t : Tree K V m) (k : K) (v : V) (k' : K),
    (get t k).isSome ∨ (keys t).length < capacity m →
      get (insert t k v) k' = if k' = k then some v else get t k'
  insert_full : ∀ {K V : Type} [LinearOrder K] {m : Nat} (t : Tree K V m) (k : K) (v : V),
    get t k = none → ¬ (keys t).length < capacity m → insert t k v = t
  get_set : ∀ {K V : Type} [LinearOrder K] {m : Nat} (t : Tree K V m) (k : K) (v : V) (k' : K),
    (get t k).isSome → get (set t k v) k' = if k' = k then some v else get t k'
  get_remove : ∀ {K V : Type} [LinearOrder K] {m : Nat} (t : Tree K V m) (k k' : K),
    get (remove t k) k' = if k' = k then none else get t k'
  root_none : ∀ {K V : Type} [LinearOrder K] {m : Nat} (t : Tree K V m), root t = none → keys t = []
  root_some : ∀ {K V : Type} [LinearOrder K] {m : Nat} (t : Tree K V m) (k : K), root t = some k → k ∈ keys t
  removeRoot_none : ∀ {K V : Type} [LinearOrder K] {m : Nat} (t : Tree K V m), removeRoot t = none → keys t = []
  removeRoot_some : ∀ {K V : Type} [LinearOrder K] {m : Nat} (t t' : Tree K V m) (k : K),
    removeRoot t = some (k, t') → (get t k).isSome ∧ ∀ k', get t' k' = if k' = k then none else get t k'

namespace Sokoban

variable {S : Sokoban} {K V : Type} [LinearOrder K] {m : Nat}

def support (t : S.Tree K V m) : Finset K := (S.keys t).toFinset

theorem mem_support (t : S.Tree K V m) (k : K) : k ∈ support t ↔ (S.get t k).isSome := by
  rw [support, List.mem_toFinset, S.mem_keys]

theorem notMem_support {t : S.Tree K V m} {k : K} : k ∉ support t ↔ S.get t k = none := by
  rw [mem_support, Option.not_isSome_iff_eq_none]

theorem card_support (t : S.Tree K V m) : (support t).card = (S.keys t).length :=
  List.toFinset_card_of_nodup ((S.keys_sorted t).imp ne_of_lt)

theorem support_new : support (S.new : S.Tree K V m) = ∅ := by
  refine Finset.eq_empty_of_forall_notMem fun k => ?_
  rw [notMem_support, S.get_new]

theorem length_new : (S.keys (S.new : S.Tree K V m)).length = 0 := by
  rw [← card_support, support_new, Finset.card_empty]

theorem support_insert (t : S.Tree K V m) (k : K) (v : V) (h : (S.get t k).isSome ∨ (S.keys t).length < S.capacity m) :
    support (S.insert t k v) = Insert.insert k (support t) := by
  ext k'
  rw [mem_support, S.get_insert t k v k' h, Finset.mem_insert, mem_support]
  by_cases hk : k' = k <;> simp [hk]

theorem support_remove (t : S.Tree K V m) (k : K) : support (S.remove t k) = (support t).erase k := by
  ext k'
  rw [mem_support, S.get_remove, Finset.mem_erase, mem_support]
  by_cases hk : k' = k <;> simp [hk]

theorem support_removeRoot {t t' : S.Tree K V m} {k : K} (h : S.removeRoot t = some (k, t')) :
    support t' = (support t).erase k := by
  obtain ⟨-, hget⟩ := S.removeRoot_some t t' k h
  ext k'
  rw [mem_support, hget, Finset.mem_erase, mem_support]
  by_cases hk : k' = k <;> simp [hk]

theorem length_removeRoot {t t' : S.Tree K V m} {k : K} (h : S.removeRoot t = some (k, t')) :
    (S.keys t').length + 1 = (S.keys t).length := by
  rw [← card_support, ← card_support, support_removeRoot h]
  exact Finset.card_erase_add_one ((mem_support t k).2 (S.removeRoot_some t t' k h).1)

theorem get_insert_cases {t : S.Tree K V m} {k k' : K} {v w : V} (h : S.get (S.insert t k v) k' = some w) :
    (k' = k ∧ w = v) ∨ S.get t k' = some w := by
  by_cases hroom : (S.get t k).isSome ∨ (S.keys t).length < S.capacity m
  · rw [S.get_insert t k v k' hroom] at h
    by_cases hk : k' = k
    · rw [if_pos hk] at h
      exact .inl ⟨hk, (Option.some.inj h).symm⟩
    · rw [if_neg hk] at h
      exact .inr h
  · rw [not_or, Option.not_isSome_iff_eq_none] at hroom
    rw [S.insert_full t k v hroom.1 hroom.2] at h
    exact .inr h

theorem get_of_remove {t : S.Tree K V m} {k k' : K} {w : V} (h : S.get (S.remove t k) k' = some w) :
    S.get t k' = some w := by
  rw [S.get_remove] at h
  by_cases hk : k' = k
  · rw [if_pos hk] at h
    cases h
  · rwa [if_neg hk] at h

theorem length_insert_le (t : S.Tree K V m) (k : K) (v : V) :
    (S.keys (S.insert t k v)).length ≤ (S.keys t).length + 1 := by
  by_cases h : (S.get t k).isSome ∨ (S.keys t).length < S.capacity m
  · rw [← card_support, ← card_support, support_insert t k v h]
    exact Finset.card_insert_le _ _
  · rw [not_or, Option.not_isSome_iff_eq_none] at h
    rw [S.insert_full t k v h.1 h.2]
    exact Nat.le_succ _

end Sokoban

theorem treeMap_get_insert {K V : Type} [LinearOrder K] (t : Std.TreeMap K V compare) (k : K) (v : V) (k' : K) :
    (t.insert k v)[k']? = if k' = k then some v else t[k']? := by
  simp only [Std.TreeMap.getElem?_insert, compare_eq_iff_eq, eq_comm (a := k)]

theorem treeMap_get_erase {K V : Type} [LinearOrder K] (t : Std.TreeMap K V compare) (k k' : K) :
    (t.erase k)[k']? = if k' = k then none else t[k']? := by
  simp only [Std.TreeMap.getElem?_erase, compare_eq_iff_eq, eq_comm (a := k)]

/-- The tree as a sorted map whose root is its middle key. -/
def sortedTree : Sokoban where
  Tree := fun K V _ _ => Std.TreeMap K V compare
  capacity := fun m => m
  new := ∅
  get := fun t k => t[k]?
  keys := fun t => t.keys
  insert := fun {_ _ _ m} t k v => if k ∈ t ∨ t.keys.length < m then t.insert k v else t
  set := fun t k v => if k ∈ t then t.insert k v else t
  remove := fun t k => t.erase k
  root := fun t => t.keys[t.keys.length / 2]?
  removeRoot := fun t => (t.keys[t.keys.length / 2]?).map (fun k => (k, t.erase k))
  keys_sorted := fun t => t.ordered_keys.imp (fun h => compare_lt_iff_lt.1 h)
  mem_keys := fun t k => by rw [Std.TreeMap.mem_keys, Std.TreeMap.isSome_getElem?_iff_mem]
  get_new := fun k => Std.TreeMap.getElem?_emptyc
  get_insert := fun {_ _ _ m} t k v k' h => by
    rw [Std.TreeMap.isSome_getElem?_iff_mem] at h
    rw [if_pos h, treeMap_get_insert]
  insert_full := fun t k v hk hf => by
    have hk : k ∉ t := by
      rw [← Std.TreeMap.isSome_getElem?_iff_mem, hk]
      simp
    exact if_neg (not_or.2 ⟨hk, hf⟩)
  get_set := fun t k v k' h => by
    rw [Std.TreeMap.isSome_getElem?_iff_mem] at h
    rw [if_pos h, treeMap_get_insert]
  get_remove := treeMap_get_erase
  root_none := fun t h => by
    rw [List.getElem?_eq_none_iff] at h
    exact List.eq_nil_of_length_eq_zero (by omega)
  root_some := fun t k h => List.mem_of_getElem? h
  removeRoot_none := fun t h => by
    rw [Option.map_eq_none_iff, List.getElem?_eq_none_iff] at h
    exact List.eq_nil_of_length_eq_zero (by omega)
  removeRoot_some := fun t t' k h => by
    obtain ⟨k₁, hk, he⟩ := Option.map_eq_some_iff.1 h
    cases he
    refine ⟨?_, treeMap_get_erase t k⟩
    rw [Std.TreeMap.isSome_getElem?_iff_mem, ← Std.TreeMap.mem_keys]
    exact List.mem_of_getElem? hk

end Qos
