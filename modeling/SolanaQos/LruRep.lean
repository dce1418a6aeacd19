import SolanaQos.Lru
/-!
# What a cache represents

`Rep c slots` ties the four structures of a cache together: following the links from the head visits `slots` and ends
at the tail, the free list and `slots` partition the array, and the map sends every stored key to its slot and has no
other entries.  It is the invariant of the cache, with the order of the slots as a parameter, so that an operation can
be specified by what it does to a list:
* moving a slot to the front takes it out of the list and puts it first (`moveToFront_ok`);
* a pop and the eviction of the tail take a slot out (`pop_ok`, `evict_ok`);
* an insertion puts a free slot first (`insertFront_ok`).

Each of these lemmas says that the operation succeeds on a represented cache, which is the absence of undefined
behaviour, and that its result is represented by the spliced slots.

The links of a cache are a store of links, so the splices are those of chains.  Each write of an operation is one of
two kinds: it changes links and ends and nothing else (`Relinked`), or it changes what one slot holds (`Stored`).
Links may be rewritten freely as long as the slots stay the same (`Rep.reorder`).
-/
namespace Qos
namespace Lru

open Runs Chains

variable {K V : Type} {n : Nat}

/-! ## Reading and writing slots -/

def LRUCache.slot (c : LRUCache K V n) (i : Nat) : Option (Node K V) := c.nodes[i]?.join

def LRUCache.write (c : LRUCache K V n) (i : Nat) (x : Option (Node K V)) : LRUCache K V n :=
  { c with nodes := c.nodes.setIfInBounds i x }

def LRUCache.links (c : LRUCache K V n) : Store Nat := fun i => (c.slot i).map (fun nd => (nd.prev, nd.next))

def LRUCache.pair (c : LRUCache K V n) (i : Nat) : Option (K × V) := (c.slot i).map (fun nd => (nd.key, nd.value))

theorem slot_lt {c : LRUCache K V n} {i : Nat} {nd : Node K V} (h : c.slot i = some nd) : i < n := by
  unfold LRUCache.slot at h
  by_cases hi : i < n
  · exact hi
  · rw [Vector.getElem?_eq_none (by omega)] at h; cases h

theorem slot_write {c : LRUCache K V n} {i : Nat} (hi : i < n) (x : Option (Node K V)) (j : Nat) :
    (c.write i x).slot j = if j = i then x else c.slot j := by
  unfold LRUCache.slot LRUCache.write
  rw [Vector.getElem?_setIfInBounds]
  by_cases hj : j = i
  · subst hj; simp [hi]
  · simp [hj, Ne.symm hj]

theorem getUnchecked_of_lt (c : LRUCache K V n) {i : Nat} (hi : i < n) : c.getUnchecked i = .ok (c.slot i) := by
  simp [LRUCache.getUnchecked, LRUCache.slot, hi]

theorem node_of_slot {c : LRUCache K V n} {i : Nat} {nd : Node K V} (h : c.slot i = some nd) : c.node i = .ok nd := by
  simp only [LRUCache.node, getUnchecked_of_lt c (slot_lt h), h, ok_bind]

theorem setSlot_of_lt (c : LRUCache K V n) {i : Nat} (hi : i < n) (x : Option (Node K V)) :
    c.setSlot i x = .ok (c.write i x) := by
  simp only [LRUCache.setSlot, LRUCache.write, hi, dif_pos]
  congr 2
  ext j hj : 1
  simp [Vector.getElem_set, Vector.getElem_setIfInBounds]

theorem modifyNode_of_slot {c : LRUCache K V n} {i : Nat} {nd : Node K V} (h : c.slot i = some nd)
    (f : Node K V → Node K V) : c.modifyNode i f = .ok (c.write i (some (f nd))) := by
  simp only [LRUCache.modifyNode, node_of_slot h, ok_bind, setSlot_of_lt c (slot_lt h)]

theorem links_write {c : LRUCache K V n} {i : Nat} (hi : i < n) (nd : Node K V) (j : Nat) :
    (c.write i (some nd)).links j = if j = i then some (nd.prev, nd.next) else c.links j := by
  simp only [LRUCache.links, slot_write hi]
  by_cases hj : j = i <;> simp [hj]

theorem pair_write {c : LRUCache K V n} {i : Nat} (hi : i < n) (x : Option (Node K V)) (j : Nat) :
    (c.write i x).pair j = if j = i then x.map (fun nd => (nd.key, nd.value)) else c.pair j := by
  simp only [LRUCache.pair, slot_write hi]
  by_cases hj : j = i <;> simp [hj]

theorem pair_write_self {c : LRUCache K V n} {i : Nat} {nd nd' : Node K V} (h : c.slot i = some nd)
    (hk : nd'.key = nd.key) (hv : nd'.value = nd.value) : (c.write i (some nd')).pair = c.pair := by
  funext j
  rw [pair_write (slot_lt h)]
  by_cases hj : j = i
  · subst hj; simp [LRUCache.pair, h, hk, hv]
  · simp [hj]

/-- **`c'` is `c` with the links `σ` and the ends `h` and `t`**: pairs, map and free list are untouched. -/
structure Relinked (c c' : LRUCache K V n) (σ : Store Nat) (h t : Option Nat) : Prop where
  links : c'.links = σ
  pair : c'.pair = c.pair
  map : c'.map = c.map
  free : c'.freeList = c.freeList
  head : c'.head = h
  tail : c'.tail = t

theorem slot_isSome_iff_pair (c : LRUCache K V n) (i : Nat) : (c.slot i).isSome ↔ (c.pair i).isSome := by
  simp [LRUCache.pair]

theorem writeNext_ok (c : LRUCache K V n) (o v h t : Option Nat) (hocc : ∀ i, o = some i → (c.pair i).isSome) :
    ∃ c', c.writeNext o v { c with head := h, tail := t } = .ok c' ∧
      Relinked c c' (relinkNext c.links o v) (if o = none then h else c.head) (if o = none then t else c.tail) := by
  cases o with
  | none => exact ⟨_, rfl, ⟨by rw [relinkNext_none]; rfl, rfl, rfl, rfl, by simp, by simp⟩⟩
  | some i =>
    obtain ⟨nd, hnd⟩ := Option.isSome_iff_exists.1 ((slot_isSome_iff_pair c i).2 (hocc i rfl))
    refine ⟨_, modifyNode_of_slot hnd _, ⟨?_, pair_write_self hnd rfl rfl, rfl, rfl, by simp [LRUCache.write],
      by simp [LRUCache.write]⟩⟩
    funext j
    rw [links_write (slot_lt hnd)]
    by_cases hj : j = i
    · subst hj; simp [relinkNext, LRUCache.links, hnd]
    · rw [if_neg hj, relinkNext_of_ne (by simpa using Ne.symm hj)]

theorem writePrev_ok (c : LRUCache K V n) (o v h t : Option Nat) (hocc : ∀ i, o = some i → (c.pair i).isSome) :
    ∃ c', c.writePrev o v { c with head := h, tail := t } = .ok c' ∧
      Relinked c c' (relinkPrev c.links o v) (if o = none then h else c.head) (if o = none then t else c.tail) := by
  cases o with
  | none => exact ⟨_, rfl, ⟨by rw [relinkPrev_none]; rfl, rfl, rfl, rfl, by simp, by simp⟩⟩
  | some i =>
    obtain ⟨nd, hnd⟩ := Option.isSome_iff_exists.1 ((slot_isSome_iff_pair c i).2 (hocc i rfl))
    refine ⟨_, modifyNode_of_slot hnd _, ⟨?_, pair_write_self hnd rfl rfl, rfl, rfl, by simp [LRUCache.write],
      by simp [LRUCache.write]⟩⟩
    funext j
    rw [links_write (slot_lt hnd)]
    by_cases hj : j = i
    · subst hj; simp [relinkPrev, LRUCache.links, hnd]
    · rw [if_neg hj, relinkPrev_of_ne (by simpa using Ne.symm hj)]

structure Stored (c c' : LRUCache K V n) (i : Nat) (x : Option (Node K V)) : Prop where
  pair : ∀ j, c'.pair j = if j = i then x.map (fun nd => (nd.key, nd.value)) else c.pair j
  links_self : c'.links i = x.map (fun nd => (nd.prev, nd.next))
  links : ∀ j, j ≠ i → c'.links j = c.links j
  map : c'.map = c.map
  free : c'.freeList = c.freeList
  head : c'.head = c.head
  tail : c'.tail = c.tail

theorem setSlot_ok (c : LRUCache K V n) {i : Nat} (hi : i < n) (x : Option (Node K V)) :
    ∃ c', c.setSlot i x = .ok c' ∧ Stored c c' i x := by
  refine ⟨_, setSlot_of_lt c hi x, ⟨pair_write hi x, ?_, fun j hj => ?_, rfl, rfl, rfl, rfl⟩⟩
  · simp [LRUCache.links, slot_write hi]
  · simp [LRUCache.links, slot_write hi, hj]

theorem takeNode_ok {c : LRUCache K V n} {i : Nat} {nd : Node K V} (h : c.slot i = some nd) :
    ∃ c', c.takeNode i = .ok (nd, c') ∧ Stored c c' i none := by
  obtain ⟨c', e, hs⟩ := setSlot_ok c (slot_lt h) none
  exact ⟨c', by simp only [LRUCache.takeNode, node_of_slot h, ok_bind, e], hs⟩

/-! ## The representation -/

/-- **The cache `c` stores its pairs in `slots`, most recent first.** -/
structure Rep [DecidableEq K] (c : LRUCache K V n) (slots : List Nat) : Prop where
  chain : Chain c.links none slots none
  head : c.head = slots.head?
  tail : c.tail = slots.getLast?
  occupied : ∀ i, (c.pair i).isSome ↔ i ∈ slots
  partition : (c.freeList ++ slots).Perm (List.range n)
  map : ∀ k i, c.map.lookup k = some i ↔ ∃ v, c.pair i = some (k, v)

variable [DecidableEq K] {c : LRUCache K V n} {slots l₁ l₂ : List Nat} {i : Nat}

theorem Rep.nodup_all (h : Rep c slots) : (c.freeList ++ slots).Nodup :=
  h.partition.nodup_iff.2 List.nodup_range

theorem Rep.nodup (h : Rep c slots) : slots.Nodup := (List.nodup_append.1 h.nodup_all).2.1

theorem Rep.lt (h : Rep c slots) (hi : i ∈ slots) : i < n := by
  have := h.partition.mem_iff.1 (List.mem_append_right _ hi)
  simpa using this

theorem Rep.node_at (h : Rep c (l₁ ++ i :: l₂)) :
    ∃ nd, c.slot i = some nd ∧ nd.prev = l₁.getLast? ∧ nd.next = l₂.head? := by
  have hlinks := h.chain.at_middle
  obtain ⟨nd, hnd, he⟩ := Option.map_eq_some_iff.1 hlinks
  exact ⟨nd, hnd, congrArg Prod.fst he, congrArg Prod.snd he⟩

theorem Rep.pair_last (h : Rep c (l₁ ++ i :: l₂)) : ∀ j, l₁.getLast? = some j → (c.pair j).isSome :=
  fun j hj => (h.occupied j).2 (List.mem_append_left _ (List.mem_of_getLast? hj))

theorem Rep.pair_next (h : Rep c (l₁ ++ i :: l₂)) : ∀ j, l₂.head? = some j → (c.pair j).isSome :=
  fun j hj => (h.occupied j).2 (List.mem_append_right _ (List.mem_cons_of_mem _ (List.mem_of_head? hj)))

theorem Rep.split_of_lookup (h : Rep c slots) {k : K} (hk : c.map.lookup k = some i) :
    ∃ l₁ l₂ v, slots = l₁ ++ i :: l₂ ∧ c.pair i = some (k, v) := by
  obtain ⟨v, hv⟩ := (h.map k i).1 hk
  obtain ⟨l₁, l₂, he⟩ := List.append_of_mem ((h.occupied i).1 (by simp [hv]))
  exact ⟨l₁, l₂, v, he, hv⟩

theorem Rep.head_iff (h : Rep c (l₁ ++ i :: l₂)) : some i = c.head ↔ l₁ = [] := by
  rw [h.head]
  cases l₁ with
  | nil => simp
  | cons a l =>
    have hnd := h.nodup
    simp only [List.cons_append, List.nodup_cons] at hnd
    simp only [List.cons_append, List.head?_cons, Option.some.injEq, reduceCtorEq, iff_false]
    rintro rfl
    exact hnd.1 (by simp)

/-- The same pairs in a permuted order: only the links and the ends are to be checked. -/
theorem Rep.reorder {c' : LRUCache K V n} {slots' : List Nat} (h : Rep c slots) (hperm : slots'.Perm slots)
    (hchain : Chain c'.links none slots' none) (hhead : c'.head = slots'.head?) (htail : c'.tail = slots'.getLast?)
    (hpair : ∀ j, (c'.pair j).map Prod.fst = (c.pair j).map Prod.fst) (hmap : c'.map = c.map)
    (hfree : c'.freeList = c.freeList) : Rep c' slots' where
  chain := hchain
  head := hhead
  tail := htail
  occupied := fun j => by
    have hj : (c'.pair j).isSome = (c.pair j).isSome := by
      have := congrArg Option.isSome (hpair j)
      simpa using this
    rw [hj, h.occupied j, hperm.mem_iff]
  partition := by rw [hfree]; exact (List.Perm.append_left _ hperm).trans h.partition
  map := fun k j => by
    have hj : (∃ v, c'.pair j = some (k, v)) ↔ (∃ v, c.pair j = some (k, v)) := by
      have := hpair j
      cases h₁ : c'.pair j <;> cases h₂ : c.pair j <;> simp_all [Prod.ext_iff]
    rw [hmap, h.map k j, hj]

omit [DecidableEq K] in
theorem modifyLinks_ok (hi : (c.pair i).isSome) :
    ∃ c₁ c₂, c.modifyNode i (fun nd => { nd with prev := none }) = .ok c₁ ∧
      c₁.modifyNode i (fun nd => { nd with next := c₁.head }) = .ok c₂ ∧
      Relinked c c₂ (fun j => if j = i then some (none, c.head) else c.links j) c.head c.tail := by
  obtain ⟨nd, hnd⟩ := Option.isSome_iff_exists.1 ((slot_isSome_iff_pair c i).2 hi)
  have hlt := slot_lt hnd
  have hnd₁ : (c.write i (some { nd with prev := none })).slot i = some { nd with prev := none } := by
    rw [slot_write hlt, if_pos rfl]
  refine ⟨_, _, modifyNode_of_slot hnd _, modifyNode_of_slot hnd₁ _, ⟨?_, ?_, rfl, rfl, rfl, rfl⟩⟩
  · funext j
    rw [links_write hlt]
    by_cases hj : j = i
    · simp [hj, LRUCache.write]
    · rw [if_neg hj, if_neg hj, links_write hlt, if_neg hj]
  · refine (pair_write_self hnd₁ ?_ ?_).trans (pair_write_self hnd ?_ ?_) <;> rfl

theorem moveToFront_ok (h : Rep c (l₁ ++ i :: l₂)) :
    ∃ c', c.moveToFront i = .ok c' ∧ Rep c' (i :: (l₁ ++ l₂)) ∧ c'.pair = c.pair := by
  by_cases hh : some i = c.head
  · obtain rfl := h.head_iff.1 hh
    exact ⟨c, by simp only [LRUCache.moveToFront, if_pos hh]; rfl, h, rfl⟩
  have hne : l₁ ≠ [] := fun he => hh (h.head_iff.2 he)
  obtain ⟨nd, hnd, hprev, hnext⟩ := h.node_at
  have hnodup := h.nodup
  -- unlink the slot
  obtain ⟨c₁, e₁, r₁⟩ := writeNext_ok c l₁.getLast? l₂.head? c.head c.tail h.pair_last
  have e₁ : c.writeNext l₁.getLast? l₂.head? c = .ok c₁ := e₁
  obtain ⟨c₂, e₂, r₂⟩ := writePrev_ok c₁ l₂.head? l₁.getLast? c₁.head l₁.getLast?
    (fun j hj => by rw [r₁.pair]; exact h.pair_next j hj)
  have e₂ : c₁.writePrev l₂.head? l₁.getLast? { c₁ with tail := l₁.getLast? } = .ok c₂ := e₂
  have hunlinked : Chain c₂.links none (l₁ ++ l₂) none := by
    rw [r₂.links, r₁.links]
    exact h.chain.unlink hnodup (fun _ _ => rfl)
  have hpair₂ : c₂.pair = c.pair := r₂.pair.trans r₁.pair
  have hhead₂ : c₂.head = (l₁ ++ l₂).head? := by
    rw [r₂.head, ite_self, r₁.head, ite_self, h.head]
    cases l₁ with
    | nil => exact absurd rfl hne
    | cons a l => rfl
  -- and push it at the front
  obtain ⟨c₃, c₄, e₃, e₄, r₄⟩ := modifyLinks_ok (c := c₂) (i := i) (by
    rw [hpair₂]; exact (h.occupied i).2 (by simp))
  have hocc₄ : ∀ j, c₄.head = some j → (c₄.pair j).isSome := fun j hj => by
    rw [r₄.head, hhead₂] at hj
    rw [r₄.pair, hpair₂]
    refine (h.occupied j).2 ?_
    have := List.mem_of_head? hj
    simp only [List.mem_append] at this
    rcases this with hj | hj <;> simp [hj]
  obtain ⟨c₅, e₅, r₅⟩ := writePrev_ok c₄ c₄.head (some i) c₄.head c₄.tail hocc₄
  have e₅ : c₄.writePrev c₄.head (some i) c₄ = .ok c₅ := e₅
  refine ⟨{ c₅ with head := some i }, ?_, ?_, r₅.pair.trans (r₄.pair.trans hpair₂)⟩
  · simp only [LRUCache.moveToFront, if_neg hh, node_of_slot hnd, ok_bind, hprev, hnext, e₁, e₂, e₃, e₄, e₅]
    rfl
  have hperm : (i :: (l₁ ++ l₂)).Perm (l₁ ++ i :: l₂) := List.perm_middle.symm
  refine h.reorder hperm ?_ rfl ?_ (fun j => ?_) ?_ ?_
  · rw [List.nodup_middle, List.nodup_cons] at hnodup
    have hfront := hunlinked.pushFront (τ := c₄.links) hnodup.2 hnodup.1
      (by simp [r₄.links, hhead₂]) (fun j hj => by simp [r₄.links, hj])
    have hlinks : c₅.links = relinkPrev c₄.links (l₁ ++ l₂).head? (some i) := by
      rw [r₅.links, r₄.head, hhead₂]
    rw [← hlinks] at hfront
    exact hfront
  · show c₅.tail = _
    rw [r₅.tail, ite_self, r₄.tail, r₂.tail, r₁.tail, ite_self, h.tail]
    cases l₂ with
    | nil => cases l₁ with
      | nil => exact absurd rfl hne
      | cons a l => simp [List.getLast?_cons]
    | cons a l => simp [List.getLast?_append, List.getLast?_cons]
  · show (c₅.pair j).map Prod.fst = _
    rw [r₅.pair, r₄.pair, hpair₂]
  · exact r₅.map.trans (r₄.map.trans (r₂.map.trans r₁.map))
  · exact r₅.free.trans (r₄.free.trans (r₂.free.trans r₁.free))

/-! ## Removing and inserting a slot -/

theorem Rep.remove {c' : LRUCache K V n} {τ : Store Nat} {k : K} {v : V} (h : Rep c (l₁ ++ i :: l₂))
    (hkv : c.pair i = some (k, v)) (hτ : ∀ j, j ≠ i → τ j = c.links j)
    (hlinks : c'.links = relinkPrev (relinkNext τ l₁.getLast? l₂.head?) l₂.head? l₁.getLast?)
    (hhead : c'.head = (l₁ ++ l₂).head?) (htail : c'.tail = (l₁ ++ l₂).getLast?)
    (hpair : ∀ j, c'.pair j = if j = i then none else c.pair j) (hmap : c'.map = c.map.erase k)
    (hfree : c'.freeList = i :: c.freeList) : Rep c' (l₁ ++ l₂) where
  chain := by rw [hlinks]; exact h.chain.unlink h.nodup hτ
  head := hhead
  tail := htail
  occupied := fun j => by
    have hnd := h.nodup
    rw [List.nodup_middle, List.nodup_cons] at hnd
    rw [hpair j]
    by_cases hj : j = i
    · subst hj; simpa using hnd.1
    · rw [if_neg hj, h.occupied j]; simp [hj]
  partition := by
    have hperm : (i :: (c.freeList ++ (l₁ ++ l₂))).Perm (c.freeList ++ (l₁ ++ i :: l₂)) :=
      List.perm_middle.symm.trans (List.Perm.append_left _ List.perm_middle.symm)
    rw [hfree]
    exact hperm.trans h.partition
  map := fun k' j => by
    rw [hmap, hpair j]
    by_cases hk : k' = k
    · -- the removed key had exactly this slot
      subst hk
      rw [Finmap.lookup_erase]
      have hslot : ∀ v', c.pair j = some (k', v') → j = i := fun v' hv' => by
        have h₁ := (h.map k' j).2 ⟨v', hv'⟩
        have h₂ := (h.map k' i).2 ⟨v, hkv⟩
        rw [h₁] at h₂
        exact Option.some.inj h₂
      by_cases hj : j = i
      · simp [hj]
      · simp only [hj, if_false, reduceCtorEq, false_iff, not_exists]
        exact fun v' hv' => hj (hslot v' hv')
    · rw [Finmap.lookup_erase_ne hk, h.map k' j]
      by_cases hj : j = i
      · subst hj; simp [hkv, Ne.symm hk]
      · simp [hj]

theorem pop_ok {k : K} {v : V} (h : Rep c (l₁ ++ i :: l₂)) (hkv : c.pair i = some (k, v)) :
    ∃ c', c.pop k = .ok (some (k, v), c') ∧ Rep c' (l₁ ++ l₂) ∧
      ∀ j, c'.pair j = if j = i then none else c.pair j := by
  obtain ⟨nd, hnd, hprev, hnext⟩ := h.node_at
  have hkey : nd.key = k ∧ nd.value = v := by simpa [LRUCache.pair, hnd] using hkv
  have hlook : c.map.lookup k = some i := (h.map k i).2 ⟨v, hkv⟩
  obtain ⟨c₀, e₀, r₀⟩ := takeNode_ok (c := { c with map := c.map.erase k }) hnd
  have hpair₀ : ∀ j, c₀.pair j = if j = i then none else c.pair j := r₀.pair
  have hnodup := h.nodup
  rw [List.nodup_middle, List.nodup_cons] at hnodup
  have hne₁ : ∀ j, l₁.getLast? = some j → j ≠ i := fun j hj he =>
    hnodup.1 (List.mem_append_left _ (he ▸ List.mem_of_getLast? hj))
  have hne₂ : ∀ j, l₂.head? = some j → j ≠ i := fun j hj he =>
    hnodup.1 (List.mem_append_right _ (he ▸ List.mem_of_head? hj))
  obtain ⟨c₁, e₁, r₁⟩ := writeNext_ok c₀ l₁.getLast? l₂.head? l₂.head? c₀.tail
    (fun j hj => by rw [hpair₀, if_neg (hne₁ j hj)]; exact h.pair_last j hj)
  have e₁ : c₀.writeNext l₁.getLast? l₂.head? { c₀ with head := l₂.head? } = .ok c₁ := e₁
  obtain ⟨c₂, e₂, r₂⟩ := writePrev_ok c₁ l₂.head? l₁.getLast? c₁.head l₁.getLast?
    (fun j hj => by rw [r₁.pair, hpair₀, if_neg (hne₂ j hj)]; exact h.pair_next j hj)
  have e₂ : c₁.writePrev l₂.head? l₁.getLast? { c₁ with tail := l₁.getLast? } = .ok c₂ := e₂
  have hpair₂ : ∀ j, c₂.pair j = if j = i then none else c.pair j := fun j => by rw [r₂.pair, r₁.pair, hpair₀]
  refine ⟨{ c₂ with freeList := i :: c₂.freeList }, ?_, ?_, hpair₂⟩
  · simp only [LRUCache.pop, hlook, e₀, ok_bind, hprev, hnext, e₁, e₂, hkey.1, hkey.2]
    rfl
  · refine h.remove hkv (τ := c₀.links) r₀.links (r₂.links.trans (by rw [r₁.links])) ?_ ?_ hpair₂
      (r₂.map.trans (r₁.map.trans r₀.map)) (congrArg (i :: ·) (r₂.free.trans (r₁.free.trans r₀.free)))
    · show c₂.head = _
      rw [r₂.head, ite_self, r₁.head, r₀.head]
      cases l₁ with
      | nil => rfl
      | cons a l => simpa [List.getLast?_cons] using h.head
    · show c₂.tail = _
      rw [r₂.tail, r₁.tail, ite_self, r₀.tail]
      cases l₂ with
      | nil => simp
      | cons a l => simpa [List.getLast?_append, List.getLast?_cons] using h.tail

theorem evict_ok {k : K} {v : V} (h : Rep c (l₁ ++ [i])) (hkv : c.pair i = some (k, v)) :
    ∃ c', c.evict = .ok (some (k, v), c') ∧ Rep c' l₁ ∧ c'.freeList = i :: c.freeList ∧
      c'.map = c.map.erase k ∧ ∀ j, c'.pair j = if j = i then none else c.pair j := by
  obtain ⟨nd, hnd, hprev, -⟩ := h.node_at
  have hkey : nd.key = k ∧ nd.value = v := by simpa [LRUCache.pair, hnd] using hkv
  have htail : c.tail = some i := by rw [h.tail]; simp
  obtain ⟨c₀, e₀, r₀⟩ := takeNode_ok hnd
  have hpair₀ : ∀ j, c₀.pair j = if j = i then none else c.pair j := r₀.pair
  have hocc : ∀ j, l₁.getLast? = some j → (c₀.pair j).isSome := by
    intro j hj
    have hnodup := h.nodup
    rw [List.nodup_middle, List.nodup_cons] at hnodup
    have hji : j ≠ i := fun he => hnodup.1 (List.mem_append_left _ (he ▸ List.mem_of_getLast? hj))
    rw [hpair₀, if_neg hji]
    exact h.pair_last j hj
  obtain ⟨c₁, e₁, r₁⟩ := writeNext_ok { c₀ with map := c₀.map.erase k, tail := l₁.getLast? } l₁.getLast? none none
    l₁.getLast? hocc
  have hpair₁ : ∀ j, c₁.pair j = if j = i then none else c.pair j := fun j => by rw [r₁.pair]; exact hpair₀ j
  have hmap₁ : c₁.map = c.map.erase k := r₁.map.trans (congrArg (Finmap.erase k) r₀.map)
  have hfree₁ : i :: c₁.freeList = i :: c.freeList := congrArg (i :: ·) (r₁.free.trans r₀.free)
  refine ⟨{ c₁ with freeList := i :: c₁.freeList }, ?_, ?_, hfree₁, hmap₁, hpair₁⟩
  · simp only [LRUCache.evict, htail, e₀, ok_bind, hkey.1, hkey.2, hprev, e₁]
    rfl
  · rw [← List.append_nil l₁]
    refine h.remove hkv (τ := c₀.links) r₀.links ?_ ?_ ?_ hpair₁ hmap₁ hfree₁
    · rw [List.head?_nil, relinkPrev_none]
      exact r₁.links
    · show c₁.head = _
      rw [r₁.head, r₀.head, List.append_nil]
      cases l₁ with
      | nil => rfl
      | cons a l => simpa [List.getLast?_cons] using h.head
    · show c₁.tail = _
      rw [r₁.tail, ite_self, List.append_nil]

theorem insertFront_ok {k : K} {rest : List Nat} (v : V) (h : Rep c slots) (hfree : c.freeList = i :: rest)
    (hk : c.map.lookup k = none) :
    ∃ c', c.insertFront k v = .ok c' ∧ Rep c' (i :: slots) ∧
      ∀ j, c'.pair j = if j = i then some (k, v) else c.pair j := by
  have hall := h.nodup_all
  rw [hfree, List.cons_append, List.nodup_cons] at hall
  have hi : i ∉ slots := fun hi => hall.1 (List.mem_append_right _ hi)
  have hlt : i < n := by
    have := h.partition.mem_iff.1 (List.mem_append_left slots (hfree ▸ List.mem_cons_self))
    simpa using this
  obtain ⟨c₀, e₀, r₀⟩ := setSlot_ok { c with freeList := rest } hlt (some ⟨k, v, none, c.head⟩)
  have hpair₀ : ∀ j, c₀.pair j = if j = i then some (k, v) else c.pair j := r₀.pair
  have hhead₀ : c₀.head = slots.head? := r₀.head.trans h.head
  have hocc : ∀ j, c₀.head = some j → (c₀.pair j).isSome := by
    intro j hj
    rw [hhead₀] at hj
    have hmem := List.mem_of_head? hj
    have hji : j ≠ i := fun he => hi (he ▸ hmem)
    rw [hpair₀, if_neg hji]
    exact (h.occupied j).2 hmem
  obtain ⟨c₁, e₁, r₁⟩ := writePrev_ok c₀ c₀.head (some i) c₀.head c₀.tail hocc
  have e₁ : c₀.writePrev c₀.head (some i) c₀ = .ok c₁ := e₁
  have hpair₁ : ∀ j, c₁.pair j = if j = i then some (k, v) else c.pair j := fun j => by rw [r₁.pair, hpair₀]
  have htail₁ : c₁.tail = slots.getLast? := by rw [r₁.tail, ite_self, r₀.tail]; exact h.tail
  have hmap₁ : c₁.map = c.map := r₁.map.trans r₀.map
  have hnew : c.pair i = none := by
    cases hp : c.pair i with
    | none => rfl
    | some e => exact absurd ((h.occupied i).1 (by simp [hp])) hi
  refine ⟨{ c₁ with head := some i, tail := (slots.getLast?).or (some i), map := c.map.insert k i }, ?_, ?_, hpair₁⟩
  · simp only [LRUCache.insertFront, LRUCache.popFree, hfree, ok_bind, e₀, e₁, htail₁]
    cases slots.getLast? <;> simp [hmap₁] <;> rfl
  · exact {
      chain := by
        have hfront := h.chain.pushFront (τ := c₀.links) h.nodup hi (by rw [r₀.links_self, ← h.head]; rfl) r₀.links
        have hlinks : c₁.links = relinkPrev c₀.links slots.head? (some i) := by rw [r₁.links, hhead₀]
        rw [← hlinks] at hfront
        exact hfront
      head := rfl
      tail := by rw [List.getLast?_cons]; cases slots.getLast? <;> rfl
      occupied := fun j => by
        show (c₁.pair j).isSome ↔ _
        rw [hpair₁]
        by_cases hj : j = i
        · simp [hj]
        · rw [if_neg hj, h.occupied j]; simp [hj]
      partition := by
        have hf : c₁.freeList = rest := r₁.free.trans r₀.free
        have hperm : (rest ++ i :: slots).Perm (c.freeList ++ slots) := by rw [hfree]; exact List.perm_middle
        show (c₁.freeList ++ i :: slots).Perm _
        rw [hf]; exact hperm.trans h.partition
      map := fun k' j => by
        show (c.map.insert k i).lookup k' = some j ↔ ∃ v, c₁.pair j = some (k', v)
        rw [hpair₁]
        by_cases hkk : k' = k
        · subst hkk
          rw [Finmap.lookup_insert]
          by_cases hj : j = i
          · simp [hj]
          · have habs : ∀ v', c.pair j ≠ some (k', v') := fun v' hv' => by
              have := (h.map k' j).2 ⟨v', hv'⟩
              rw [hk] at this; cases this
            simp [hj, habs, Ne.symm hj]
        · rw [Finmap.lookup_insert_of_ne _ hkk, h.map k' j]
          by_cases hj : j = i
          · subst hj; simp [hnew, Ne.symm hkk]
          · simp [hj] }

end Lru
end Qos
