import SolanaQos.LruRefine
/-!
# Soundness of the cache, and the cache as a value

The order of a cache is read off its links by following `next` from the head (`LRUCache.slots`).  `Sound` says what the
links, the map and the free list satisfy in every reachable state, in terms of the cache alone; from such a state no
unchecked access fails (`lruCache_sound`).  A represented cache is sound, since the slots that the links visit are the
ones that represent it (`Rep.slots_eq`).

`Cache` carries the representation with the cache, so that its operations are total: this is the cache the rest of the
program uses, and `Cache.view` is the recency list it stands for.  `put_view`, `pop_view` and `contains_view` say that
the three calls the program makes are the list's; everything behind them speaks of what is stored (`lookup`) and of the
entries in their order, as the modules on the loop need it:
* a put reports a duplicate exactly for a key that is there (`put_duplicate_iff`);
* a put of a key that is there moves it to the front, any other goes in front of what is kept (`entries_put_present`,
  `entries_put_absent`);
* a pop takes out its key and no other (`lookup_pop`).
-/
namespace Qos
namespace Lru

open Runs Chains Recency

variable {K V : Type} {n : Nat}

/-- Follow `next`, at most `fuel` times. -/
def LRUCache.follow (c : LRUCache K V n) : Nat → Option Nat → List Nat
  | fuel + 1, some i => i :: c.follow fuel ((c.slot i).bind (fun nd => nd.next))
  | _, _ => []

def LRUCache.slots (c : LRUCache K V n) : List Nat := c.follow n c.head

theorem follow_of_chain (c : LRUCache K V n) : ∀ (fuel : Nat) (p : Option Nat) (l : List Nat),
    Chain c.links p l none → l.length ≤ fuel → c.follow fuel l.head? = l
  | 0, _, l, _, hl => by
    obtain rfl := List.eq_nil_of_length_eq_zero (Nat.le_zero.1 hl)
    rfl
  | fuel + 1, _, [], _, _ => rfl
  | fuel + 1, p, i :: l, h, hl => by
    obtain ⟨nd, hnd, hlinks⟩ := Option.map_eq_some_iff.1 h.1
    have hnext : nd.next = l.head? := by
      have := congrArg Prod.snd hlinks
      simpa using this
    simp only [List.head?_cons, LRUCache.follow, hnd, Option.bind_some, hnext]
    rw [follow_of_chain c fuel (some i) l h.2 (by simpa using hl)]

variable [DecidableEq K]

theorem Rep.slots_eq {c : LRUCache K V n} {slots : List Nat} (h : Rep c slots) : c.slots = slots := by
  unfold LRUCache.slots
  rw [h.head]
  refine follow_of_chain c n none slots h.chain ?_
  have := h.length_free
  omega

/-- **The representation of a reachable cache.**  `next` from the head visits the occupied slots once each and stops at
the tail; `prev` inverts `next`; the map sends each stored key to its slot and has no other entries; the free list and
the visited slots partition `0..n`. -/
structure Sound (c : LRUCache K V n) : Prop where
  visits : ∀ i, (c.slot i).isSome ↔ i ∈ c.slots
  once : c.slots.Nodup
  ends : c.slots.getLast? = c.tail
  stops : ∀ t nd, c.tail = some t → c.slot t = some nd → nd.next = none
  inverse : ∀ i j, (c.slot i).bind (fun nd => nd.next) = some j ↔ (c.slot j).bind (fun nd => nd.prev) = some i
  keyed : ∀ k i, c.map.lookup k = some i ↔ ∃ nd, c.slot i = some nd ∧ nd.key = k
  partition : (c.freeList ++ c.slots).Perm (List.range n)
  sizes : c.map.keys.card + c.freeList.length = n

theorem Rep.sound {c : LRUCache K V n} {slots : List Nat} (h : Rep c slots) : Sound c := by
  have hslots := h.slots_eq
  have hocc : ∀ i, (c.slot i).isSome ↔ i ∈ slots := fun i => by rw [slot_isSome_iff_pair, h.occupied]
  refine ⟨by rwa [hslots], by rw [hslots]; exact h.nodup, by rw [hslots, h.tail], ?_, ?_, ?_, by
    rw [hslots]; exact h.partition, ?_⟩
  · intro t nd ht hnd
    rw [h.tail] at ht
    obtain ⟨l, rfl⟩ := List.getLast?_eq_some_iff.1 ht
    obtain ⟨nd', hnd', -, hnext⟩ := h.node_at
    rw [hnd] at hnd'
    cases hnd'
    exact hnext
  · intro i j
    have hout : ∀ i, i ∉ slots → c.links i = none := fun i hi => by
      have : c.slot i = none := by
        cases hs : c.slot i with
        | none => rfl
        | some nd => exact absurd ((hocc i).1 (by simp [hs])) hi
      simp [LRUCache.links, this]
    have := h.chain.next_iff_prev hout i j
    simpa [LRUCache.links, Option.bind_map, Function.comp_def] using this
  · intro k i
    rw [h.map]
    constructor
    · rintro ⟨v, hv⟩
      obtain ⟨nd, hnd, he⟩ := Option.map_eq_some_iff.1 hv
      exact ⟨nd, hnd, congrArg Prod.fst he⟩
    · rintro ⟨nd, hnd, rfl⟩
      exact ⟨nd.value, by simp [LRUCache.pair, hnd]⟩
  · have := h.length_free
    rw [h.card_map]
    omega

/-- **Every state a run reaches is sound, and no call from it meets undefined behaviour**: every `get_unchecked` index
is below `n`, every `unwrap_unchecked` sees a value, and the free list has a slot when `put` asks for one. -/
theorem lruCache_sound (n : Nat) (hn : 1 ≤ n) (ops : List (Op K V)) :
    ∃ os c, run LRUCache.step (LRUCache.new : LRUCache K V n) ops = .ok (os, c) ∧ Sound c ∧
      ∀ op : Op K V, ∃ ret c', c.step op = .ok (ret, c') := by
  obtain ⟨c, e, href⟩ := run_sim Refines step_refines ops _ _ (new_refines (K := K) (V := V) hn)
  refine ⟨_, c, e, ?_, fun op => ?_⟩
  · obtain ⟨slots, hrep, -⟩ := href
    exact hrep.sound
  · obtain ⟨c', e', -⟩ := step_refines c _ op href
    exact ⟨_, c', e'⟩

/-- Capacity one: the only slot is head and tail, and is evicted and reused. -/
theorem lruCache_sound_one :
    1 ≤ 1 ∧ ∃ os c, run LRUCache.step (LRUCache.new : LRUCache Nat Nat 1) [.put 1 10, .put 2 20, .pop 2, .put 3 30] =
      .ok (os, c) ∧ Sound c ∧ ∀ op : Op Nat Nat, ∃ ret c', c.step op = .ok (ret, c') :=
  ⟨by decide, lruCache_sound 1 (by decide) [.put 1 10, .put 2 20, .pop 2, .put 3 30]⟩

/-! ## The cache with its representation -/

/-- **A cache that is represented**: the value the program holds. -/
structure Cache (K V : Type) [DecidableEq K] (n : Nat) where
  cache : LRUCache K V n
  pos : 0 < n
  rep : ∃ slots, Rep cache slots

namespace Cache

def view (c : Cache K V n) : RecencyList K V n where
  entries := c.cache.slots.filterMap c.cache.pair
  pos := c.pos
  distinct := by
    obtain ⟨slots, h⟩ := c.rep
    rw [h.slots_eq]
    exact h.distinct
  bounded := by
    obtain ⟨slots, h⟩ := c.rep
    rw [h.slots_eq, h.length_contents]
    have := h.length_free
    omega

theorem refines_view (c : Cache K V n) : Refines c.cache c.view := by
  obtain ⟨slots, h⟩ := c.rep
  exact ⟨slots, h, by simp only [view, h.slots_eq]⟩

theorem view_eq_of_refines {c : Cache K V n} {r : RecencyList K V n} (h : Refines c.cache r) : c.view = r := by
  obtain ⟨slots, hrep, hr⟩ := h
  have he : c.view.entries = r.entries := by simp only [view, hrep.slots_eq, hr]
  cases hv : c.view with
  | mk es p d b =>
    rw [hv] at he
    cases r
    cases he
    rfl

def new (hn : 0 < n) : Cache K V n :=
  ⟨LRUCache.new, hn, [], rep_of_empty slot_new rfl rfl rfl rfl⟩

theorem view_new (hn : 0 < n) : (new hn : Cache K V n).view = RecencyList.empty hn :=
  view_eq_of_refines (new_refines hn)

def ofOk {ρ : Type} (c : Cache K V n) (call : Except Ub (ρ × LRUCache K V n))
    (h : ∃ ret c', call = .ok (ret, c') ∧ ∃ slots, Rep c' slots) : ρ × Cache K V n :=
  match call, h with
  | .ok r, h => (r.1, ⟨r.2, c.pos, by
      obtain ⟨ret, c', e, hrep⟩ := h
      cases e
      exact hrep⟩)
  | .error _, h => absurd h (by rintro ⟨ret, c', e, -⟩; cases e)

theorem ofOk_eq {ρ : Type} {c : Cache K V n} {call : Except Ub (ρ × LRUCache K V n)} {ret : ρ} {c' : LRUCache K V n}
    {r : RecencyList K V n} (e : call = .ok (ret, c')) (hr : Refines c' r)
    (h : ∃ ret c', call = .ok (ret, c') ∧ ∃ slots, Rep c' slots) :
    (ofOk c call h).1 = ret ∧ (ofOk c call h).2.view = r := by
  subst e
  exact ⟨rfl, view_eq_of_refines hr⟩

theorem put_total (c : Cache K V n) (k : K) (v : V) :
    ∃ ret c', c.cache.put k v = .ok (ret, c') ∧ ∃ slots, Rep c' slots := by
  obtain ⟨c', e, slots, hrep, -⟩ := put_refines c.refines_view k v
  exact ⟨_, c', e, slots, hrep⟩

theorem pop_total (c : Cache K V n) (k : K) :
    ∃ ret c', c.cache.pop k = .ok (ret, c') ∧ ∃ slots, Rep c' slots := by
  obtain ⟨c', e, slots, hrep, -⟩ := pop_refines c.refines_view k
  exact ⟨_, c', e, slots, hrep⟩

def put (c : Cache K V n) (k : K) (v : V) : (Option (K × V) × Bool) × Cache K V n :=
  ofOk c (c.cache.put k v) (c.put_total k v)

def pop (c : Cache K V n) (k : K) : Option (K × V) × Cache K V n := ofOk c (c.cache.pop k) (c.pop_total k)

def contains (c : Cache K V n) (k : K) : Bool := c.cache.contains k

theorem put_view (c : Cache K V n) (k : K) (v : V) :
    (c.put k v).1 = (c.view.put k v).1 ∧ (c.put k v).2.view = (c.view.put k v).2 := by
  obtain ⟨c', e, hr⟩ := put_refines c.refines_view k v
  exact ofOk_eq e hr _

theorem pop_view (c : Cache K V n) (k : K) :
    (c.pop k).1 = (c.view.pop k).1 ∧ (c.pop k).2.view = (c.view.pop k).2 := by
  obtain ⟨c', e, hr⟩ := pop_refines c.refines_view k
  exact ofOk_eq e hr _

theorem contains_view (c : Cache K V n) (k : K) : c.contains k = c.view.contains k :=
  contains_refines c.refines_view k

def lookup (c : Cache K V n) (k : K) : Option V := find c.view.entries k

theorem contains_eq (c : Cache K V n) (k : K) : c.contains k = (c.lookup k).isSome := c.contains_view k

theorem lookup_new (hn : 0 < n) (k : K) : (new hn : Cache K V n).lookup k = none := by
  unfold lookup
  rw [view_new]
  rfl

theorem put_duplicate_iff (c : Cache K V n) (k : K) (v : V) :
    (c.put k v).1 = (none, true) ↔ (c.lookup k).isSome = true := by
  rw [(c.put_view k v).1, RecencyList.put_duplicate_iff]
  rfl

theorem lookup_put_self (c : Cache K V n) (k : K) (v : V) : (c.put k v).2.lookup k = some v := by
  unfold lookup
  rw [(c.put_view k v).2, RecencyList.find_put_self]

theorem lookup_put_of_ne {c : Cache K V n} {k k' : K} (v : V) {w : V} (hk : k' ≠ k)
    (h : (c.put k v).2.lookup k' = some w) : c.lookup k' = some w := by
  unfold lookup at h
  rw [(c.put_view k v).2] at h
  exact RecencyList.find_put_of_ne v hk h

theorem put_fresh_iff (c : Cache K V n) (k : K) (v : V) : (c.put k v).1 ≠ (none, true) ↔ c.lookup k = none := by
  rw [Ne, put_duplicate_iff, Option.not_isSome_iff_eq_none]

theorem entries_put_present {c : Cache K V n} {k : K} (v : V) {w : V} (h : c.lookup k = some w) :
    (c.put k v).2.view.entries = (k, v) :: without c.view.entries k := by
  rw [(c.put_view k v).2]
  exact (RecencyList.put_present v h).2

theorem lookup_put_present {c : Cache K V n} {k : K} (v : V) {w : V} (h : c.lookup k = some w) (k' : K) :
    (c.put k v).2.lookup k' = if k' = k then some v else c.lookup k' := by
  show find (c.put k v).2.view.entries k' = _
  rw [entries_put_present v h, find_cons, find_without]
  by_cases hk : k' = k
  · rw [if_pos hk, if_pos hk]
  · rw [if_neg hk, if_neg hk, if_neg hk]
    rfl

theorem entries_put_absent {c : Cache K V n} {k : K} (v : V) (h : c.lookup k = none) :
    (c.put k v).2.view.entries = (k, v) :: c.view.kept := by
  rw [(c.put_view k v).2]
  exact (RecencyList.put_absent v h).2

theorem lookup_pop (c : Cache K V n) (k k' : K) :
    (c.pop k).2.lookup k' = if k' = k then none else c.lookup k' := by
  unfold lookup
  rw [(c.pop_view k).2, RecencyList.find_pop]

theorem pop_of_absent {c : Cache K V n} {k : K} (h : c.contains k = false) : c.pop k = (none, c) := by
  have hl : c.cache.map.lookup k = none := Option.isSome_eq_false_iff.1 h |> Option.isNone_iff_eq_none.1
  have he : c.cache.pop k = .ok (none, c.cache) := by
    unfold LRUCache.pop
    rw [hl]
    rfl
  unfold pop
  generalize c.pop_total k = ht
  revert ht
  rw [he]
  intro ht
  rfl

theorem pop_of_present {c : Cache K V n} {k : K} (h : c.contains k = true) :
    ∃ v, c.lookup k = some v ∧ (c.pop k).1 = some (k, v) := by
  rw [contains_eq] at h
  obtain ⟨v, hv⟩ := Option.isSome_iff_exists.1 h
  exact ⟨v, hv, by rw [(c.pop_view k).1, (RecencyList.pop_present hv).1]⟩

end Cache
end Lru
end Qos
