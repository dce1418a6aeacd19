import SolanaQos.Chain
import SolanaQos.Recency
import SolanaQos.Runs
/-!
# The LRU cache (`lru/src/lib.rs`)

An array of optional nodes linked by indices, a hash map from keys to slots, a stack of free slots, and the two ends of
the list.  The model is at the level of the source: indices, links and optional slots, written in the source's order.
The hash map is a finite map, and the array of nodes a vector of the cache's capacity.

Every `get_unchecked` and `unwrap_unchecked` of the source is an access that can fail here: `Ub` is the undefined
behaviour the source would have, and the operations run in `Except Ub`.  That no run reaches `Ub` is proved and not
built in.

`put` has two branches, for a key that is there and for one that is not; the second one evicts the tail of a full cache
first.  Both constructors are modelled: `new` from an array of empty slots, and `new_boxed`, which clears a zeroed
allocation slot by slot.
-/
namespace Qos
namespace Lru

open Runs

/-- What an unchecked access meets when its precondition fails. -/
inductive Ub
  | getUnchecked (index : Nat)
  | unwrapUnchecked
  deriving DecidableEq, Repr

structure Node (K V : Type) where
  key : K
  value : V
  prev : Option Nat
  next : Option Nat
  deriving DecidableEq, Repr

structure LRUCache (K V : Type) (n : Nat) where
  nodes : Vector (Option (Node K V)) n
  map : Finmap (fun _ : K => Nat)
  -- a `Vec` used as a stack, its top first
  freeList : List Nat
  head : Option Nat
  tail : Option Nat

variable {K V : Type} {n : Nat}

/-! ## The unchecked accesses

`getUnchecked` is `nodes.get_unchecked(i)` and `node` the same with `as_ref().unwrap_unchecked()`; `setSlot` and
`modifyNode` write through `get_unchecked_mut(i)`, the second one into the node behind `as_mut().unwrap_unchecked()`;
`takeNode` is `take().unwrap_unchecked()`, and `popFree` pops the free list without a check. -/

def LRUCache.getUnchecked (c : LRUCache K V n) (i : Nat) : Except Ub (Option (Node K V)) :=
  if h : i < n then .ok c.nodes[i] else .error (.getUnchecked i)

def LRUCache.node (c : LRUCache K V n) (i : Nat) : Except Ub (Node K V) := do
  match ← c.getUnchecked i with
  | some nd => .ok nd
  | none => .error .unwrapUnchecked

def LRUCache.setSlot (c : LRUCache K V n) (i : Nat) (x : Option (Node K V)) : Except Ub (LRUCache K V n) :=
  if h : i < n then .ok { c with nodes := c.nodes.set i x } else .error (.getUnchecked i)

def LRUCache.modifyNode (c : LRUCache K V n) (i : Nat) (f : Node K V → Node K V) : Except Ub (LRUCache K V n) := do
  let nd ← c.node i
  c.setSlot i (some (f nd))

def LRUCache.takeNode (c : LRUCache K V n) (i : Nat) : Except Ub (Node K V × LRUCache K V n) := do
  let nd ← c.node i
  let c ← c.setSlot i none
  .ok (nd, c)

def LRUCache.popFree (c : LRUCache K V n) : Except Ub (Nat × LRUCache K V n) :=
  match c.freeList with
  | i :: rest => .ok (i, { c with freeList := rest })
  | [] => .error .unwrapUnchecked

/-- `if let Some(i) = at { nodes[i].next = v } else { .. }`, with the state of the `else` branch. -/
def LRUCache.writeNext (c : LRUCache K V n) (at_ v : Option Nat) (otherwise : LRUCache K V n) :
    Except Ub (LRUCache K V n) :=
  match at_ with
  | some i => c.modifyNode i (fun nd => { nd with next := v })
  | none => .ok otherwise

def LRUCache.writePrev (c : LRUCache K V n) (at_ v : Option Nat) (otherwise : LRUCache K V n) :
    Except Ub (LRUCache K V n) :=
  match at_ with
  | some i => c.modifyNode i (fun nd => { nd with prev := v })
  | none => .ok otherwise

/-! ## Construction -/

/-- The loop `for i in (0..N).rev() { free_list.push(i) }`. -/
def fullFreeList (n : Nat) : List Nat := (List.range n).reverse.foldl (fun stack i => i :: stack) []

def LRUCache.new : LRUCache K V n where
  nodes := Vector.replicate n none
  map := ∅
  freeList := fullFreeList n
  head := none
  tail := none

/-- `new_boxed` clears the slots one by one; `zeroed` is whatever the zeroed allocation reads as before that. -/
def LRUCache.newBoxed (zeroed : Vector (Option (Node K V)) n) : LRUCache K V n where
  nodes := (List.range n).foldl (fun nodes i => nodes.setIfInBounds i none) zeroed
  map := ∅
  freeList := fullFreeList n
  head := none
  tail := none

/-! ## The operations -/

def LRUCache.moveToFront (c : LRUCache K V n) (index : Nat) : Except Ub (LRUCache K V n) := do
  if some index = c.head then
    return c
  let prevIndex := (← c.node index).prev
  let nextIndex := (← c.node index).next
  let c ← c.writeNext prevIndex nextIndex c
  let c ← c.writePrev nextIndex prevIndex { c with tail := prevIndex }
  let c ← c.modifyNode index (fun nd => { nd with prev := none })
  let c ← c.modifyNode index (fun nd => { nd with next := c.head })
  let c ← c.writePrev c.head (some index) c
  return { c with head := some index }

variable [DecidableEq K]

def LRUCache.evict (c : LRUCache K V n) : Except Ub (Option (K × V) × LRUCache K V n) := do
  match c.tail with
  | some tailIndex =>
    let (tailNode, c) ← c.takeNode tailIndex
    let c := { c with map := c.map.erase tailNode.key, tail := tailNode.prev }
    let c ← c.writeNext c.tail none { c with head := none }
    return (some (tailNode.key, tailNode.value), { c with freeList := tailIndex :: c.freeList })
  | none => return (none, c)

def LRUCache.get (c : LRUCache K V n) (key : K) : Except Ub (Option V × LRUCache K V n) := do
  match c.map.lookup key with
  | some index =>
    let c ← c.moveToFront index
    return ((← c.getUnchecked index).map (fun nd => nd.value), c)
  | none => return (none, c)

def LRUCache.contains (c : LRUCache K V n) (key : K) : Bool := (c.map.lookup key).isSome

def LRUCache.pop (c : LRUCache K V n) (key : K) : Except Ub (Option (K × V) × LRUCache K V n) := do
  match c.map.lookup key with
  | some index =>
    let c := { c with map := c.map.erase key }
    let (node, c) ← c.takeNode index
    let c ← c.writeNext node.prev node.next { c with head := node.next }
    let c ← c.writePrev node.next node.prev { c with tail := node.prev }
    return (some (node.key, node.value), { c with freeList := index :: c.freeList })
  | none => return (none, c)

/-- The insertion both branches of `put` end with: a free slot becomes the head. -/
def LRUCache.insertFront (c : LRUCache K V n) (key : K) (value : V) : Except Ub (LRUCache K V n) := do
  let (index, c) ← c.popFree
  let c ← c.setSlot index (some { key, value, prev := none, next := c.head })
  let c ← c.writePrev c.head (some index) c
  let c := { c with head := some index }
  let c := if c.tail.isNone then { c with tail := some index } else c
  return { c with map := c.map.insert key index }

def LRUCache.put (c : LRUCache K V n) (key : K) (value : V) :
    Except Ub ((Option (K × V) × Bool) × LRUCache K V n) := do
  match c.map.lookup key with
  | some index =>
    let c ← c.modifyNode index (fun nd => { nd with value := value })
    let c ← c.moveToFront index
    return ((none, true), c)
  | none =>
    if c.map.keys.card = n then
      let (evicted, c) ← c.evict
      let c ← c.insertFront key value
      return ((evicted, false), c)
    else
      let c ← c.insertFront key value
      return ((none, false), c)

def LRUCache.step (c : LRUCache K V n) : Recency.Op K V → Except Ub (Recency.Ret K V × LRUCache K V n)
  | .put k v => do
    let (r, c) ← c.put k v
    return (.put r.1 r.2, c)
  | .get k => do
    let (r, c) ← c.get k
    return (.get r, c)
  | .contains k => return (.contains (c.contains k), c)
  | .pop k => do
    let (r, c) ← c.pop k
    return (.pop r, c)

end Lru
end Qos
