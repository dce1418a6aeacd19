import Mathlib
/-!
# Bounded recency lists

The abstract cache: at most `n ≥ 1` pairs with distinct keys, most recently used first.  A lookup moves its pair to the
front, a membership test does not, and inserting an absent key into a full list drops the last pair.  The list carries
its own well-formedness, so every operation here is total.  Keys and values are of any type with decidable equality of
keys.

Beside the laws of the four operations there are two accounts of what is in a list.

How long a key stays: `Within r k D` says that `k` is stored with only keys of `D` ahead of it, or that `D` is large
enough to have pushed it out.  Any other insertion adds its key to `D` (`Within.put`), a removal frees a place and
moves nothing ahead (`Within.pop`), and while `D` has fewer than `n` keys, `k` is there (`Within.contains`).

Lists that were filled by insertions only hold the latest distinct keys of the history (`RecencyList.put_keys`): the
front of `latest`, which lists the keys by their last occurrence.
-/
namespace Recency

variable {K V : Type} [DecidableEq K]

def find (l : List (K × V)) (k : K) : Option V := (l.find? (fun e => e.1 = k)).map Prod.snd

def without (l : List (K × V)) (k : K) : List (K × V) := l.filter (fun e => e.1 ≠ k)

theorem find_eq_none {l : List (K × V)} {k : K} : find l k = none ↔ ∀ e ∈ l, e.1 ≠ k := by
  simp [find, List.find?_eq_none]

theorem find_eq_some {l : List (K × V)} {k : K} {v : V} (h : find l k = some v) : (k, v) ∈ l := by
  obtain ⟨e, he, rfl⟩ := Option.map_eq_some_iff.1 h
  have hk : e.1 = k := by simpa using List.find?_some he
  exact hk ▸ List.mem_of_find?_eq_some he

theorem find_append_cons {l₁ l₂ : List (K × V)} {k : K} {v : V} (h₁ : ∀ e ∈ l₁, e.1 ≠ k) :
    find (l₁ ++ (k, v) :: l₂) k = some v := by
  have : l₁.find? (fun e => e.1 = k) = none := by simpa [List.find?_eq_none] using h₁
  simp [find, List.find?_append, this]

theorem without_of_absent {l : List (K × V)} {k : K} (h : ∀ e ∈ l, e.1 ≠ k) : without l k = l :=
  List.filter_eq_self.2 (fun e he => by simpa using h e he)

theorem without_append_cons {l₁ l₂ : List (K × V)} {k : K} {v : V} (h₁ : ∀ e ∈ l₁, e.1 ≠ k) (h₂ : ∀ e ∈ l₂, e.1 ≠ k) :
    without (l₁ ++ (k, v) :: l₂) k = l₁ ++ l₂ := by
  have hsplit : without (l₁ ++ (k, v) :: l₂) k = without l₁ k ++ without l₂ k := by simp [without]
  rw [hsplit, without_of_absent h₁, without_of_absent h₂]

theorem mem_without {l : List (K × V)} {k : K} {e : K × V} : e ∈ without l k ↔ e ∈ l ∧ e.1 ≠ k := by
  simp [without]

theorem nodup_without {l : List (K × V)} (k : K) (h : (l.map Prod.fst).Nodup) : ((without l k).map Prod.fst).Nodup :=
  h.sublist ((List.filter_sublist (p := fun e => e.1 ≠ k)).map Prod.fst)

theorem not_mem_without (l : List (K × V)) (k : K) : k ∉ (without l k).map Prod.fst := by
  simp [without]

theorem length_without_lt {l : List (K × V)} {k : K} {v : V} (h : find l k = some v) :
    (without l k).length < l.length :=
  List.length_filter_lt_length_iff_exists.2 ⟨(k, v), find_eq_some h, by simp⟩

theorem find_cons (k : K) (v : V) (l : List (K × V)) (k' : K) :
    find ((k, v) :: l) k' = if k' = k then some v else find l k' := by
  unfold find
  by_cases hk : k' = k
  · simp [hk]
  · simp [hk, Ne.symm hk]

theorem find_without (l : List (K × V)) (k k' : K) :
    find (without l k) k' = if k' = k then none else find l k' := by
  by_cases hk : k' = k
  · rw [if_pos hk, find_eq_none]
    intro e he
    rw [hk]
    exact (mem_without.1 he).2
  · rw [if_neg hk]
    unfold find without
    rw [List.find?_filter]
    congr 2
    funext e
    by_cases he : e.1 = k'
    · simp [he, hk]
    · simp [he]

theorem find_of_mem {l : List (K × V)} (hnd : (l.map Prod.fst).Nodup) {k : K} {v : V} (h : (k, v) ∈ l) :
    find l k = some v := by
  obtain ⟨l₁, l₂, rfl⟩ := List.append_of_mem h
  refine find_append_cons fun e he hek => ?_
  rw [List.map_append, List.map_cons, List.nodup_middle, List.nodup_cons] at hnd
  exact hnd.1 (List.mem_append.2 (Or.inl (List.mem_map.2 ⟨e, he, hek⟩)))

/-- **A bounded recency list**: distinct keys, at most `n` pairs, most recent first. -/
structure RecencyList (K V : Type) (n : Nat) where
  entries : List (K × V)
  pos : 0 < n
  distinct : (entries.map Prod.fst).Nodup
  bounded : entries.length ≤ n

namespace RecencyList

variable {n : Nat}

def empty (hn : 0 < n) : RecencyList K V n := ⟨[], hn, List.nodup_nil, Nat.zero_le _⟩

def touch (r : RecencyList K V n) (k : K) (v w : V) (h : find r.entries k = some w) : RecencyList K V n where
  entries := (k, v) :: without r.entries k
  pos := r.pos
  distinct := by
    rw [List.map_cons, List.nodup_cons]
    exact ⟨not_mem_without r.entries k, nodup_without k r.distinct⟩
  bounded := Nat.le_trans (length_without_lt h) r.bounded

/-- The pairs an insertion keeps: all of them, or all but the last if the list is full. -/
def kept (r : RecencyList K V n) : List (K × V) :=
  if r.entries.length = n then r.entries.dropLast else r.entries

omit [DecidableEq K] in
theorem kept_sublist (r : RecencyList K V n) : r.kept.Sublist r.entries := by
  unfold kept
  split
  · exact List.dropLast_sublist _
  · exact List.Sublist.refl _

omit [DecidableEq K] in
theorem length_kept (r : RecencyList K V n) : r.kept.length < n := by
  have hpos := r.pos
  have hle := r.bounded
  unfold kept
  split
  · rw [List.length_dropLast]; omega
  · omega

def insert (r : RecencyList K V n) (k : K) (v : V) (h : find r.entries k = none) : RecencyList K V n where
  entries := (k, v) :: r.kept
  pos := r.pos
  distinct := by
    rw [List.map_cons, List.nodup_cons]
    refine ⟨fun hk => ?_, r.distinct.sublist (r.kept_sublist.map Prod.fst)⟩
    obtain ⟨e, he, hek⟩ := List.mem_map.1 hk
    exact find_eq_none.1 h e (r.kept_sublist.subset he) hek
  bounded := r.length_kept

def get (r : RecencyList K V n) (k : K) : Option V × RecencyList K V n :=
  match h : find r.entries k with
  | none => (none, r)
  | some v => (some v, r.touch k v v h)

def contains (r : RecencyList K V n) (k : K) : Bool := (find r.entries k).isSome

def pop (r : RecencyList K V n) (k : K) : Option (K × V) × RecencyList K V n :=
  match find r.entries k with
  | none => (none, r)
  | some v =>
    (some (k, v), ⟨without r.entries k, r.pos, nodup_without k r.distinct,
      Nat.le_trans (List.length_filter_le _ _) r.bounded⟩)

/-- `put`: overwrite and move to the front, or insert, handing back the last pair of a full list. -/
def put (r : RecencyList K V n) (k : K) (v : V) : (Option (K × V) × Bool) × RecencyList K V n :=
  match h : find r.entries k with
  | some w => ((none, true), r.touch k v w h)
  | none => ((if r.entries.length = n then r.entries.getLast? else none, false), r.insert k v h)

theorem get_present {r : RecencyList K V n} {k : K} {v : V} (h : find r.entries k = some v) :
    (r.get k).1 = some v ∧ (r.get k).2.entries = (k, v) :: without r.entries k := by
  unfold get
  split
  · rename_i h'; rw [h] at h'; cases h'
  · rename_i w h'
    obtain rfl : v = w := by rw [h] at h'; exact Option.some.inj h'
    exact ⟨rfl, rfl⟩

theorem get_absent {r : RecencyList K V n} {k : K} (h : find r.entries k = none) : r.get k = (none, r) := by
  unfold get
  split
  · rfl
  · rename_i w h'; rw [h] at h'; cases h'

theorem pop_present {r : RecencyList K V n} {k : K} {v : V} (h : find r.entries k = some v) :
    (r.pop k).1 = some (k, v) ∧ (r.pop k).2.entries = without r.entries k := by
  unfold pop
  rw [h]
  exact ⟨rfl, rfl⟩

theorem pop_absent {r : RecencyList K V n} {k : K} (h : find r.entries k = none) : r.pop k = (none, r) := by
  unfold pop
  rw [h]

theorem put_present {r : RecencyList K V n} {k : K} {w : V} (v : V) (h : find r.entries k = some w) :
    (r.put k v).1 = (none, true) ∧ (r.put k v).2.entries = (k, v) :: without r.entries k := by
  unfold put
  split
  · exact ⟨rfl, rfl⟩
  · rename_i h'; rw [h] at h'; cases h'

theorem put_absent {r : RecencyList K V n} {k : K} (v : V) (h : find r.entries k = none) :
    (r.put k v).1 = (if r.entries.length = n then r.entries.getLast? else none, false) ∧
      (r.put k v).2.entries = (k, v) :: r.kept := by
  unfold put
  split
  · rename_i w h'; rw [h] at h'; cases h'
  · exact ⟨rfl, rfl⟩

theorem put_duplicate_iff (r : RecencyList K V n) (k : K) (v : V) :
    (r.put k v).1 = (none, true) ↔ r.contains k = true := by
  unfold contains
  cases hf : find r.entries k with
  | none =>
    rw [(put_absent v hf).1]
    simp
  | some w =>
    rw [(put_present v hf).1]
    simp

theorem find_put_self (r : RecencyList K V n) (k : K) (v : V) : find (r.put k v).2.entries k = some v := by
  cases hf : find r.entries k with
  | none => rw [(put_absent v hf).2, find_cons, if_pos rfl]
  | some w => rw [(put_present v hf).2, find_cons, if_pos rfl]

theorem find_put_of_ne {r : RecencyList K V n} {k k' : K} (v : V) {w : V} (hk : k' ≠ k)
    (h : find (r.put k v).2.entries k' = some w) : find r.entries k' = some w := by
  cases hf : find r.entries k with
  | none =>
    rw [(put_absent v hf).2, find_cons, if_neg hk] at h
    exact find_of_mem r.distinct (r.kept_sublist.subset (find_eq_some h))
  | some w' => rwa [(put_present v hf).2, find_cons, if_neg hk, find_without, if_neg hk] at h

theorem find_pop (r : RecencyList K V n) (k k' : K) :
    find (r.pop k).2.entries k' = if k' = k then none else find r.entries k' := by
  cases hf : find r.entries k with
  | none =>
    rw [pop_absent hf]
    by_cases hk : k' = k
    · rw [if_pos hk, hk, hf]
    · rw [if_neg hk]
  | some v => rw [(pop_present hf).2, find_without]

theorem contains_iff {r : RecencyList K V n} {k : K} : r.contains k = true ↔ k ∈ r.entries.map Prod.fst := by
  unfold contains
  cases hf : find r.entries k with
  | none =>
    have hnot : k ∉ r.entries.map Prod.fst := by
      intro hk
      obtain ⟨e, he, hek⟩ := List.mem_map.1 hk
      exact find_eq_none.1 hf e he hek
    simpa using hnot
  | some v => simpa using ⟨v, find_eq_some hf⟩

end RecencyList

/-! ## How long a key stays -/

namespace RecencyList

variable {n : Nat}

/-- **The key is stored with only keys of `D` ahead of it, or `D` is large enough to have pushed it out.** -/
def Within (r : RecencyList K V n) (key : K) (D : Finset K) : Prop :=
  (∃ ahead behind, r.entries.map Prod.fst = ahead ++ key :: behind ∧ ∀ k ∈ ahead, k ∈ D) ∨ n ≤ D.card

theorem Within.contains {r : RecencyList K V n} {key : K} {D : Finset K} (h : r.Within key D) (hD : D.card < n) :
    r.contains key = true := by
  rcases h with ⟨ahead, behind, hkeys, -⟩ | hlarge
  · rw [contains_iff, hkeys]
    simp
  · exact absurd hlarge (not_le.2 hD)

theorem within_put_self (r : RecencyList K V n) (key : K) (v : V) (D : Finset K) : (r.put key v).2.Within key D := by
  left
  cases hf : find r.entries key with
  | none => exact ⟨[], r.kept.map Prod.fst, by rw [(put_absent v hf).2]; rfl, by simp⟩
  | some w => exact ⟨[], (without r.entries key).map Prod.fst, by rw [(put_present v hf).2]; rfl, by simp⟩

theorem map_without (l : List (K × V)) (k : K) :
    (without l k).map Prod.fst = (l.map Prod.fst).filter (· ≠ k) := by
  rw [without, List.filter_map]
  rfl

theorem filter_around {ahead behind : List K} {key k : K} (hk : k ≠ key) :
    (ahead ++ key :: behind).filter (· ≠ k) = ahead.filter (· ≠ k) ++ key :: behind.filter (· ≠ k) := by
  rw [List.filter_append, List.filter_cons_of_pos (by simpa using Ne.symm hk)]

theorem Within.put {r : RecencyList K V n} {key k : K} {D : Finset K} (h : r.Within key D) (v : V) (hk : k ≠ key) :
    (r.put k v).2.Within key (Insert.insert k D) := by
  rcases h with ⟨ahead, behind, hkeys, hahead⟩ | hlarge
  · cases hf : find r.entries k with
    | some w =>
      refine Or.inl ⟨k :: ahead.filter (· ≠ k), behind.filter (· ≠ k), ?_, ?_⟩
      · rw [(put_present v hf).2, List.map_cons, map_without, hkeys, filter_around hk]
        rfl
      · intro k' hk'
        rcases List.mem_cons.1 hk' with rfl | hk'
        · exact Finset.mem_insert_self _ _
        · exact Finset.mem_insert_of_mem (hahead k' (List.mem_of_mem_filter hk'))
    | none =>
      have hmem : ∀ k' ∈ k :: ahead, k' ∈ Insert.insert k D := by
        intro k' hk'
        rcases List.mem_cons.1 hk' with rfl | hk'
        · exact Finset.mem_insert_self _ _
        · exact Finset.mem_insert_of_mem (hahead k' hk')
      have hput := (put_absent v hf).2
      unfold kept at hput
      by_cases hfull : r.entries.length = n
      · rw [if_pos hfull] at hput
        rcases List.eq_nil_or_concat behind with rfl | ⟨behind', last, rfl⟩
        · -- `key` was last and is dropped: the others number `n`
          right
          have hnd := r.distinct
          have hlen := congrArg List.length hkeys
          rw [List.length_map, List.length_append, List.length_singleton, hfull] at hlen
          rw [hkeys, List.nodup_append] at hnd
          have habsent : k ∉ ahead := by
            intro hk'
            have hk'' : k ∈ r.entries.map Prod.fst := by rw [hkeys]; simp [hk']
            obtain ⟨e, he, hek⟩ := List.mem_map.1 hk''
            exact find_eq_none.1 hf e he hek
          calc n = (k :: ahead).length := hlen
            _ = (k :: ahead).toFinset.card :=
              (List.toFinset_card_of_nodup (List.nodup_cons.2 ⟨habsent, hnd.1⟩)).symm
            _ ≤ (Insert.insert k D).card := Finset.card_le_card (fun k' hk' => hmem k' (List.mem_toFinset.1 hk'))
        · refine Or.inl ⟨k :: ahead, behind', ?_, hmem⟩
          rw [hput, List.map_cons, List.map_dropLast, hkeys, List.concat_eq_append, ← List.cons_append,
            ← List.append_assoc, List.dropLast_concat]
          rfl
      · rw [if_neg hfull] at hput
        refine Or.inl ⟨k :: ahead, behind, ?_, hmem⟩
        rw [hput, List.map_cons, hkeys]
        rfl
  · exact Or.inr (Nat.le_trans hlarge (Finset.card_le_card (Finset.subset_insert k D)))

theorem Within.pop {r : RecencyList K V n} {key k : K} {D : Finset K} (h : r.Within key D) (hk : k ≠ key) :
    (r.pop k).2.Within key D := by
  rcases h with ⟨ahead, behind, hkeys, hahead⟩ | hlarge
  · cases hf : find r.entries k with
    | none =>
      rw [pop_absent hf]
      exact Or.inl ⟨ahead, behind, hkeys, hahead⟩
    | some w =>
      refine Or.inl ⟨ahead.filter (· ≠ k), behind.filter (· ≠ k), ?_, ?_⟩
      · rw [(pop_present hf).2, map_without, hkeys, filter_around hk]
      · intro k' hk'
        exact hahead k' (List.mem_of_mem_filter hk')
  · exact Or.inr hlarge

end RecencyList

/-! ## Lists filled by insertions only -/

/-- The distinct keys of a history that lists the newest first, the last occurrence of each counting. -/
def latest : List K → List K
  | [] => []
  | k :: older => k :: (latest older).filter (· ≠ k)

theorem nodup_latest : ∀ h : List K, (latest h).Nodup
  | [] => List.nodup_nil
  | k :: older => List.nodup_cons.2 ⟨by simp, (nodup_latest older).filter _⟩

/-- Removing one of the first `n` keys leaves the first `n - 1` of the rest. -/
theorem filter_take_of_mem {k : K} : ∀ {l : List K} {n : Nat}, l.Nodup → k ∈ l.take n →
    (l.take n).filter (· ≠ k) = (l.filter (· ≠ k)).take (n - 1)
  | [], n, _, hk => by simp at hk
  | a :: t, 0, _, hk => by simp at hk
  | a :: t, n + 1, hnd, hk => by
    rw [List.nodup_cons] at hnd
    by_cases ha : a = k
    · subst ha
      have hkeep : ∀ m : List K, (∀ b ∈ m, b ∈ t) → m.filter (· ≠ a) = m := fun m hm =>
        List.filter_eq_self.2 (fun b hb => by simpa using ne_of_mem_of_not_mem (hm b hb) hnd.1)
      rw [List.take_succ_cons, List.filter_cons_of_neg (by simp), List.filter_cons_of_neg (by simp),
        hkeep _ (fun b hb => List.mem_of_mem_take hb), hkeep t (fun b hb => hb), Nat.add_sub_cancel]
    · have hk' : k ∈ t.take n := by
        rw [List.take_succ_cons, List.mem_cons] at hk
        exact hk.resolve_left (Ne.symm ha)
      cases n with
      | zero => simp at hk'
      | succ n =>
        rw [List.take_succ_cons, List.filter_cons_of_pos (by simpa using ha), List.filter_cons_of_pos (by simpa using ha),
          filter_take_of_mem hnd.2 hk', Nat.add_sub_cancel, Nat.add_sub_cancel, List.take_succ_cons]

theorem filter_take_of_notMem {k : K} : ∀ {l : List K} {n : Nat}, k ∉ l.take n →
    (l.filter (· ≠ k)).take (n - 1) = l.take (n - 1)
  | [], n, _ => by simp
  | a :: t, 0, _ => by simp
  | a :: t, 1, _ => by simp
  | a :: t, n + 2, hk => by
    rw [List.take_succ_cons, List.mem_cons, not_or] at hk
    rw [List.filter_cons_of_pos (by simpa using Ne.symm hk.1)]
    have ih := filter_take_of_notMem (n := n + 1) hk.2
    rw [Nat.add_sub_cancel] at ih
    rw [show n + 2 - 1 = n + 1 from rfl, List.take_succ_cons, List.take_succ_cons, ih]

/-- **A list that only ever saw insertions holds the latest distinct keys**, in that order. -/
theorem RecencyList.put_keys {n : Nat} {r : RecencyList K V n} {h : List K}
    (hr : r.entries.map Prod.fst = (latest h).take n) (k : K) (v : V) :
    (r.put k v).2.entries.map Prod.fst = (latest (k :: h)).take n := by
  have hlatest : (latest (k :: h)).take n = k :: ((latest h).filter (· ≠ k)).take (n - 1) := by
    obtain ⟨m, rfl⟩ := Nat.exists_eq_add_of_lt r.pos
    rw [latest, Nat.zero_add, List.take_succ_cons, Nat.add_sub_cancel]
  rw [hlatest]
  cases hf : find r.entries k with
  | some w =>
    have hk : k ∈ (latest h).take n := hr ▸ List.mem_map_of_mem (find_eq_some hf)
    rw [(RecencyList.put_present v hf).2, List.map_cons, ← filter_take_of_mem (nodup_latest h) hk, ← hr,
      RecencyList.map_without]
  | none =>
    have hk : k ∉ (latest h).take n := by
      rw [← hr]
      intro hk
      obtain ⟨e, he, hek⟩ := List.mem_map.1 hk
      exact find_eq_none.1 hf e he hek
    have hlen : r.entries.length = ((latest h).take n).length := by rw [← hr, List.length_map]
    rw [(RecencyList.put_absent v hf).2, List.map_cons, filter_take_of_notMem hk]
    unfold RecencyList.kept
    split
    · rw [List.map_dropLast, hr, List.dropLast_eq_take, ← hlen, List.take_take]
      congr 2
      omega
    · have hbounded := r.bounded
      rw [List.length_take] at hlen
      rw [hr, List.take_of_length_le (by omega), List.take_of_length_le (by omega)]

inductive Op (K V : Type)
  | put (key : K) (value : V)
  | get (key : K)
  | contains (key : K)
  | pop (key : K)

inductive Ret (K V : Type)
  | put (evicted : Option (K × V)) (duplicate : Bool)
  | get (value : Option V)
  | contains (present : Bool)
  | pop (pair : Option (K × V))
  deriving DecidableEq

def RecencyList.step {n : Nat} (r : RecencyList K V n) : Op K V → Ret K V × RecencyList K V n
  | .put k v => (.put (r.put k v).1.1 (r.put k v).1.2, (r.put k v).2)
  | .get k => (.get (r.get k).1, (r.get k).2)
  | .contains k => (.contains (r.contains k), r)
  | .pop k => (.pop (r.pop k).1, (r.pop k).2)

end Recency
