import SolanaQos.LruRep
/-!
# The cache refines the bounded recency list

`Refines c r`: the pairs of `c`, read along its chain, are the entries of `r`.  Every operation of a cache that refines
a recency list succeeds, returns what the list returns and refines the list's next state (`step_refines`), so a whole
run from an empty cache never meets undefined behaviour and returns the reference's values
(`lruCache_refines_recencyList`, by the simulation rule of runs).

The first part relates slots to pairs: distinct slots hold distinct keys, so a key has one slot, the length of the list
is the size of the map (`Rep.card_map`), and the free list is empty exactly if the list is full.  The second part goes
through the operations; `put` of a present key overwrites the value and then moves the slot, `put` of an absent one is
an eviction where the list is full, and an insertion.

Both constructors give an empty cache: the loop that fills the free list counts down, so slot 0 is the first to be
taken, and the loop of `new_boxed` has cleared every slot when it ends.
-/
namespace Qos
namespace Lru

open Runs Chains Recency

variable {K V : Type} {n : Nat} [DecidableEq K] {c : LRUCache K V n} {slots l₁ l₂ : List Nat} {i : Nat}

/-! ## The pairs along the chain -/

theorem Rep.slot_unique (h : Rep c slots) {j : Nat} {k : K} {v w : V} (hi : c.pair i = some (k, v))
    (hj : c.pair j = some (k, w)) : i = j := by
  have h₁ := (h.map k i).2 ⟨v, hi⟩
  have h₂ := (h.map k j).2 ⟨w, hj⟩
  rw [h₁] at h₂
  exact Option.some.inj h₂

theorem Rep.absent (h : Rep c slots) {k : K} (hk : c.map.lookup k = none) :
    ∀ e ∈ slots.filterMap c.pair, e.1 ≠ k := by
  intro e he hek
  obtain ⟨j, -, hj⟩ := List.mem_filterMap.1 he
  have := (h.map k j).2 ⟨e.2, by rw [hj, ← hek]⟩
  rw [hk] at this; cases this

theorem Rep.contents_split (h : Rep c (l₁ ++ i :: l₂)) {k : K} {v : V} (hkv : c.pair i = some (k, v)) :
    (l₁ ++ i :: l₂).filterMap c.pair = l₁.filterMap c.pair ++ (k, v) :: l₂.filterMap c.pair ∧
      (∀ e ∈ l₁.filterMap c.pair, e.1 ≠ k) ∧ (∀ e ∈ l₂.filterMap c.pair, e.1 ≠ k) := by
  have hnodup := h.nodup
  rw [List.nodup_middle, List.nodup_cons] at hnodup
  have hother : ∀ j ∈ l₁ ++ l₂, ∀ e, c.pair j = some e → e.1 ≠ k := by
    intro j hj e he hek
    have : i = j := h.slot_unique hkv (w := e.2) (by rw [he, ← hek])
    exact hnodup.1 (this ▸ hj)
  refine ⟨by simp [hkv], ?_, ?_⟩
  · intro e he
    obtain ⟨j, hj, hje⟩ := List.mem_filterMap.1 he
    exact hother j (List.mem_append_left _ hj) e hje
  · intro e he
    obtain ⟨j, hj, hje⟩ := List.mem_filterMap.1 he
    exact hother j (List.mem_append_right _ hj) e hje

theorem Rep.distinct (h : Rep c slots) : ((slots.filterMap c.pair).map Prod.fst).Nodup := by
  rw [List.nodup_iff_pairwise_ne, List.pairwise_map, List.pairwise_filterMap]
  refine (List.nodup_iff_pairwise_ne.1 h.nodup).imp ?_
  intro i j hij e he e' he' hee
  exact hij (h.slot_unique (k := e.1) (v := e.2) (w := e'.2) he (by rw [he', hee]))

theorem Rep.length_contents (h : Rep c slots) : (slots.filterMap c.pair).length = slots.length := by
  rw [List.length_filterMap_eq_countP]
  exact List.countP_eq_length.2 (fun j hj => (h.occupied j).2 hj)

theorem Rep.card_map (h : Rep c slots) : c.map.keys.card = slots.length := by
  have hkeys : c.map.keys = ((slots.filterMap c.pair).map Prod.fst).toFinset := by
    ext k
    rw [Finmap.mem_keys, Finmap.mem_iff, List.mem_toFinset, List.mem_map]
    constructor
    · rintro ⟨j, hj⟩
      obtain ⟨v, hv⟩ := (h.map k j).1 hj
      exact ⟨(k, v), List.mem_filterMap.2 ⟨j, (h.occupied j).1 (by simp [hv]), hv⟩, rfl⟩
    · rintro ⟨e, he, rfl⟩
      obtain ⟨j, -, hj⟩ := List.mem_filterMap.1 he
      exact ⟨j, (h.map e.1 j).2 ⟨e.2, hj⟩⟩
  rw [hkeys, List.toFinset_card_of_nodup h.distinct, List.length_map, h.length_contents]

theorem Rep.length_free (h : Rep c slots) : c.freeList.length + slots.length = n := by
  have := h.partition.length_eq
  simpa using this

omit [DecidableEq K] in
theorem filterMap_pair_congr {c' : LRUCache K V n} (hpair : ∀ j ∈ slots, c'.pair j = c.pair j) :
    slots.filterMap c'.pair = slots.filterMap c.pair :=
  List.filterMap_congr hpair

/-! ## The refinement -/

/-- **The cache holds the entries of the recency list, in its order.** -/
def Refines (c : LRUCache K V n) (r : RecencyList K V n) : Prop :=
  ∃ slots, Rep c slots ∧ r.entries = slots.filterMap c.pair

theorem find_of_rep {r : RecencyList K V n} (hrep : Rep c (l₁ ++ i :: l₂))
    (hr : r.entries = (l₁ ++ i :: l₂).filterMap c.pair) {k : K} {v : V} (hkv : c.pair i = some (k, v)) :
    find r.entries k = some v ∧ without r.entries k = l₁.filterMap c.pair ++ l₂.filterMap c.pair := by
  obtain ⟨he, h₁, h₂⟩ := hrep.contents_split hkv
  rw [hr, he]
  exact ⟨find_append_cons h₁, without_append_cons h₁ h₂⟩

theorem get_refines {r : RecencyList K V n} (h : Refines c r) (k : K) :
    ∃ c', c.get k = .ok ((r.get k).1, c') ∧ Refines c' (r.get k).2 := by
  obtain ⟨slots, hrep, hr⟩ := h
  cases hl : c.map.lookup k with
  | none =>
    have hf : find r.entries k = none := find_eq_none.2 (hr ▸ hrep.absent hl)
    rw [RecencyList.get_absent hf]
    exact ⟨c, by simp only [LRUCache.get, hl]; rfl, slots, hrep, hr⟩
  | some i =>
    obtain ⟨l₁, l₂, v, rfl, hkv⟩ := hrep.split_of_lookup hl
    obtain ⟨hf, hw⟩ := find_of_rep hrep hr hkv
    obtain ⟨hv, he⟩ := RecencyList.get_present hf
    obtain ⟨c', hm, hrep', hpair⟩ := moveToFront_ok hrep
    have hlt : i < n := hrep.lt (by simp)
    have hval : (c'.slot i).map (fun nd => nd.value) = some v := by
      have hp : c'.pair i = some (k, v) := by rw [hpair]; exact hkv
      obtain ⟨nd, hnd, hkv'⟩ := Option.map_eq_some_iff.1 hp
      have hval : nd.value = v := congrArg Prod.snd hkv'
      rw [hnd, Option.map_some, hval]
    refine ⟨c', ?_, i :: (l₁ ++ l₂), hrep', ?_⟩
    · simp only [LRUCache.get, hl, hm, ok_bind, getUnchecked_of_lt c' hlt, hval, hv]
      rfl
    · rw [he, hw, hpair]
      simp [hkv]

theorem contains_refines {r : RecencyList K V n} (h : Refines c r) (k : K) : c.contains k = r.contains k := by
  obtain ⟨slots, hrep, hr⟩ := h
  unfold LRUCache.contains RecencyList.contains
  cases hl : c.map.lookup k with
  | none => rw [find_eq_none.2 (hr ▸ hrep.absent hl)]; rfl
  | some i =>
    obtain ⟨l₁, l₂, v, rfl, hkv⟩ := hrep.split_of_lookup hl
    rw [(find_of_rep hrep hr hkv).1]; rfl

theorem pop_refines {r : RecencyList K V n} (h : Refines c r) (k : K) :
    ∃ c', c.pop k = .ok ((r.pop k).1, c') ∧ Refines c' (r.pop k).2 := by
  obtain ⟨slots, hrep, hr⟩ := h
  cases hl : c.map.lookup k with
  | none =>
    have hf : find r.entries k = none := find_eq_none.2 (hr ▸ hrep.absent hl)
    rw [RecencyList.pop_absent hf]
    exact ⟨c, by simp only [LRUCache.pop, hl]; rfl, slots, hrep, hr⟩
  | some i =>
    obtain ⟨l₁, l₂, v, rfl, hkv⟩ := hrep.split_of_lookup hl
    obtain ⟨hf, hw⟩ := find_of_rep hrep hr hkv
    obtain ⟨hv, he⟩ := RecencyList.pop_present hf
    obtain ⟨c', hp, hrep', hpair⟩ := pop_ok hrep hkv
    have hnodup := hrep.nodup
    rw [List.nodup_middle, List.nodup_cons] at hnodup
    refine ⟨c', by rw [hp, hv], l₁ ++ l₂, hrep', ?_⟩
    rw [he, hw, ← List.filterMap_append]
    exact (filterMap_pair_congr (fun j hj => by
      rw [hpair, if_neg (ne_of_mem_of_not_mem hj hnodup.1)])).symm

theorem overwrite_ok {k : K} {w : V} (h : Rep c slots) (hkw : c.pair i = some (k, w)) (v : V) :
    ∃ c', c.modifyNode i (fun nd => { nd with value := v }) = .ok c' ∧ Rep c' slots ∧
      ∀ j, c'.pair j = if j = i then some (k, v) else c.pair j := by
  obtain ⟨nd, hnd, hkw'⟩ := Option.map_eq_some_iff.1 hkw
  have hlt := slot_lt hnd
  have hpair : ∀ j, (c.write i (some { nd with value := v })).pair j = if j = i then some (k, v) else c.pair j := by
    intro j
    have hkey : nd.key = k := congrArg Prod.fst hkw'
    rw [pair_write hlt, Option.map_some, hkey]
  refine ⟨_, modifyNode_of_slot hnd _, h.reorder (List.Perm.refl _) ?_ h.head h.tail ?_ rfl rfl, hpair⟩
  · refine h.chain.congr (fun j _ => ?_)
    rw [links_write hlt]
    by_cases hj : j = i
    · subst hj; simp [LRUCache.links, hnd]
    · rw [if_neg hj]
  · intro j
    rw [hpair]
    by_cases hj : j = i
    · subst hj; simp [hkw]
    · rw [if_neg hj]

theorem put_refines {r : RecencyList K V n} (h : Refines c r) (k : K) (v : V) :
    ∃ c', c.put k v = .ok ((r.put k v).1, c') ∧ Refines c' (r.put k v).2 := by
  obtain ⟨slots, hrep, hr⟩ := h
  cases hl : c.map.lookup k with
  | some i =>
    -- a duplicate: overwrite, then move to the front
    obtain ⟨l₁, l₂, w, rfl, hkw⟩ := hrep.split_of_lookup hl
    obtain ⟨hf, hw⟩ := find_of_rep hrep hr hkw
    obtain ⟨hret, he⟩ := RecencyList.put_present v hf
    obtain ⟨c₁, e₁, hrep₁, hpair₁⟩ := overwrite_ok hrep hkw v
    obtain ⟨c₂, e₂, hrep₂, hpair₂⟩ := moveToFront_ok hrep₁
    have hnodup := hrep.nodup
    rw [List.nodup_middle, List.nodup_cons] at hnodup
    refine ⟨c₂, ?_, i :: (l₁ ++ l₂), hrep₂, ?_⟩
    · simp only [LRUCache.put, hl, e₁, e₂, ok_bind, hret]
      rfl
    · have hi : c₂.pair i = some (k, v) := by rw [hpair₂, hpair₁, if_pos rfl]
      rw [he, hw, List.filterMap_cons, hi, ← List.filterMap_append]
      refine congrArg _ (filterMap_pair_congr (fun j hj => ?_)).symm
      rw [hpair₂, hpair₁, if_neg (ne_of_mem_of_not_mem hj hnodup.1)]
  | none =>
    have hf : find r.entries k = none := find_eq_none.2 (hr ▸ hrep.absent hl)
    obtain ⟨hret, he⟩ := RecencyList.put_absent v hf
    have hlen : r.entries.length = slots.length := by rw [hr, hrep.length_contents]
    have hcard := hrep.card_map
    have hfree := hrep.length_free
    by_cases hfull : slots.length = n
    · -- full: the tail leaves, and its slot is the one that is reused
      have hne : slots ≠ [] := by rintro rfl; have := r.pos; simp at hfull; omega
      obtain ⟨l₁, i, rfl⟩ : ∃ l i, slots = l ++ [i] :=
        ⟨slots.dropLast, slots.getLast hne, (List.dropLast_append_getLast hne).symm⟩
      obtain ⟨⟨k', v'⟩, hkv'⟩ := Option.isSome_iff_exists.1 ((hrep.occupied i).2 (by simp))
      obtain ⟨c₁, e₁, hrep₁, hfree₁, hmap₁, hpair₁⟩ := evict_ok hrep hkv'
      have hk₁ : c₁.map.lookup k = none := by
        rw [hmap₁]
        by_cases hkk : k = k'
        · rw [hkk, Finmap.lookup_erase]
        · rw [Finmap.lookup_erase_ne hkk, hl]
      obtain ⟨c₂, e₂, hrep₂, hpair₂⟩ := insertFront_ok v hrep₁ hfree₁ hk₁
      have hnodup := hrep.nodup
      rw [List.nodup_middle, List.nodup_cons, List.append_nil] at hnodup
      have hentries : r.entries = l₁.filterMap c.pair ++ [(k', v')] := by rw [hr]; simp [hkv']
      refine ⟨c₂, ?_, i :: l₁, hrep₂, ?_⟩
      · simp only [LRUCache.put, hl, hcard, hfull, if_true, e₁, e₂, ok_bind, hret, hlen]
        rw [hentries, List.getLast?_append]
        rfl
      · have hi : c₂.pair i = some (k, v) := by rw [hpair₂, if_pos rfl]
        rw [he, RecencyList.kept, if_pos (hlen.trans hfull), hentries, List.dropLast_concat, List.filterMap_cons, hi]
        refine congrArg _ (filterMap_pair_congr (fun j hj => ?_)).symm
        have hji : j ≠ i := ne_of_mem_of_not_mem hj hnodup.1
        rw [hpair₂, if_neg hji, hpair₁, if_neg hji]
    · -- not full: some slot is free
      obtain ⟨i, rest, hfl⟩ : ∃ i rest, c.freeList = i :: rest := by
        cases hfl : c.freeList with
        | nil => rw [hfl] at hfree; simp at hfree; exact absurd hfree hfull
        | cons i rest => exact ⟨i, rest, rfl⟩
      obtain ⟨c₂, e₂, hrep₂, hpair₂⟩ := insertFront_ok v hrep hfl hl
      have hi : i ∉ slots := (List.nodup_cons.1 hrep₂.nodup).1
      refine ⟨c₂, ?_, i :: slots, hrep₂, ?_⟩
      · simp only [LRUCache.put, hl, hcard, hfull, if_false, e₂, ok_bind, hret, hlen]
        rfl
      · have hi' : c₂.pair i = some (k, v) := by rw [hpair₂, if_pos rfl]
        rw [he, RecencyList.kept, if_neg (fun h' => hfull (hlen ▸ h')), hr, List.filterMap_cons, hi']
        refine congrArg _ (filterMap_pair_congr (fun j hj => ?_)).symm
        rw [hpair₂, if_neg (ne_of_mem_of_not_mem hj hi)]

/-- **Every call follows the reference's.** -/
theorem step_refines (c : LRUCache K V n) (r : RecencyList K V n) (op : Op K V) (h : Refines c r) :
    ∃ c', c.step op = .ok ((r.step op).1, c') ∧ Refines c' (r.step op).2 := by
  cases op with
  | put k v =>
    obtain ⟨c', e, h'⟩ := put_refines h k v
    exact ⟨c', by simp only [LRUCache.step, e, ok_bind, RecencyList.step]; rfl, h'⟩
  | get k =>
    obtain ⟨c', e, h'⟩ := get_refines h k
    exact ⟨c', by simp only [LRUCache.step, e, ok_bind, RecencyList.step]; rfl, h'⟩
  | contains k => exact ⟨c, by simp only [LRUCache.step, RecencyList.step, contains_refines h]; rfl, h⟩
  | pop k =>
    obtain ⟨c', e, h'⟩ := pop_refines h k
    exact ⟨c', by simp only [LRUCache.step, e, ok_bind, RecencyList.step]; rfl, h'⟩

/-! ## Empty caches -/

theorem fullFreeList_eq (n : Nat) : fullFreeList n = List.range n := by
  simp [fullFreeList]

theorem rep_of_empty (hslot : ∀ j, c.slot j = none) (hmap : c.map = ∅) (hfree : c.freeList = fullFreeList n)
    (hhead : c.head = none) (htail : c.tail = none) : Rep c [] where
  chain := trivial
  head := hhead
  tail := htail
  occupied := fun j => by simp [LRUCache.pair, hslot]
  partition := by rw [hfree, fullFreeList_eq, List.append_nil]
  map := fun k j => by simp [LRUCache.pair, hslot, hmap]

omit [DecidableEq K] in
theorem slot_new (j : Nat) : (LRUCache.new : LRUCache K V n).slot j = none := by
  unfold LRUCache.slot LRUCache.new
  rw [Vector.getElem?_replicate]
  split <;> rfl

omit [DecidableEq K] in
theorem foldl_clear_getElem? : ∀ (l : List Nat) (nodes : Vector (Option (Node K V)) n) (j : Nat),
    (l.foldl (fun nodes i => nodes.setIfInBounds i none) nodes)[j]?.join = if j ∈ l then none else nodes[j]?.join
  | [], nodes, j => by simp
  | i :: l, nodes, j => by
    rw [List.foldl_cons, foldl_clear_getElem? l, Vector.getElem?_setIfInBounds]
    by_cases hj : j ∈ l
    · simp [hj]
    · by_cases hij : i = j
      · subst hij
        by_cases hi : i < n <;> simp [hj, hi]
      · simp [hj, hij, Ne.symm hij]

omit [DecidableEq K] in
theorem slot_newBoxed (zeroed : Vector (Option (Node K V)) n) (j : Nat) :
    (LRUCache.newBoxed zeroed).slot j = none := by
  unfold LRUCache.slot LRUCache.newBoxed
  rw [foldl_clear_getElem?]
  by_cases hj : j < n
  · rw [if_pos (List.mem_range.2 hj)]
  · rw [if_neg (fun h => hj (List.mem_range.1 h)), Vector.getElem?_eq_none (by omega)]; rfl

theorem new_refines (hn : 0 < n) : Refines (LRUCache.new : LRUCache K V n) (RecencyList.empty hn) :=
  ⟨[], rep_of_empty slot_new rfl rfl rfl rfl, rfl⟩

theorem newBoxed_refines (hn : 0 < n) (zeroed : Vector (Option (Node K V)) n) :
    Refines (LRUCache.newBoxed zeroed) (RecencyList.empty hn) :=
  ⟨[], rep_of_empty (slot_newBoxed zeroed) rfl rfl rfl rfl, rfl⟩

/-- **The cache is the bounded recency list**: over every sequence of calls, from `new` and from `new_boxed`, every
call returns the reference's value (and none of them meets undefined behaviour). -/
theorem lruCache_refines_recencyList (n : Nat) (hn : 1 ≤ n) (zeroed : Vector (Option (Node K V)) n)
    (ops : List (Op K V)) :
    (∃ c, run LRUCache.step (LRUCache.new : LRUCache K V n) ops =
      .ok ((runSpec RecencyList.step (RecencyList.empty hn) ops).1, c)) ∧
    (∃ c, run LRUCache.step (LRUCache.newBoxed zeroed) ops =
      .ok ((runSpec RecencyList.step (RecencyList.empty hn) ops).1, c)) := by
  constructor
  · obtain ⟨c, e, -⟩ := run_sim Refines step_refines ops _ _ (new_refines hn)
    exact ⟨c, e⟩
  · obtain ⟨c, e, -⟩ := run_sim Refines step_refines ops _ _ (newBoxed_refines hn zeroed)
    exact ⟨c, e⟩

/-- Capacity two: the third key evicts the least recently used one, which `get` had not refreshed. -/
theorem lruCache_refines_recencyList_two :
    1 ≤ 2 ∧
    (runSpec RecencyList.step (RecencyList.empty (K := Nat) (V := Nat) (n := 2) (by decide))
      [.put 1 10, .put 2 20, .get 1, .put 3 30, .pop 1, .contains 2]).1 =
      [.put none false, .put none false, .get (some 10), .put (some (2, 20)) false, .pop (some (1, 10)),
        .contains false] ∧
    (∃ c, run LRUCache.step (LRUCache.new : LRUCache Nat Nat 2)
      [.put 1 10, .put 2 20, .get 1, .put 3 30, .pop 1, .contains 2] =
      .ok ([.put none false, .put none false, .get (some 10), .put (some (2, 20)) false, .pop (some (1, 10)),
        .contains false], c)) :=
  ⟨by decide, by decide, (lruCache_refines_recencyList 2 (by decide) (Vector.replicate 2 none)
    [.put 1 10, .put 2 20, .get 1, .put 3 30, .pop 1, .contains 2]).1⟩

end Lru
end Qos
