import Mathlib
/-!
# Doubly linked chains in a store of links

A store maps a cell to its `(previous, next)` links, or to nothing.  `Chain σ p l q` says that the cells of `l`, in
order, form a chain of `σ` that is entered from `p` and left to `q`: every cell points back to the one before it and
forward to the one after it.  The ends are optional cells, so the same predicate describes a whole list and a piece of
one.

The laws are what splicing code needs:
* a chain splits and joins at any point (`chain_append`);
* it depends only on its own cells (`Chain.congr`), so writes elsewhere leave it alone;
* rewriting the link out of its last cell moves its right end (`Chain.relinkNext`), and rewriting the link into its
  first cell moves its left end (`Chain.relinkPrev`);
* in a whole chain the two directions are inverse (`Chain.next_iff_prev`).

Unlinking a cell and pushing one at the front are the two splices built from them (`Chain.unlink`, `Chain.pushFront`).
Both follow the order of writes in which list code does them, and both leave the store elsewhere as it was.
-/
namespace Chains

variable {ι : Type} [DecidableEq ι]

/-- A store of links: the `(previous, next)` pair of every occupied cell. -/
abbrev Store (ι : Type) := ι → Option (Option ι × Option ι)

/-- The cells of `l` are linked in order, from `p` on the left to `q` on the right. -/
def Chain (σ : Store ι) : Option ι → List ι → Option ι → Prop
  | _, [], _ => True
  | p, i :: l, q => σ i = some (p, l.head?.or q) ∧ Chain σ (some i) l q

def relinkNext (σ : Store ι) (o v : Option ι) : Store ι :=
  fun i => if o = some i then (σ i).map (fun x => (x.1, v)) else σ i

def relinkPrev (σ : Store ι) (o v : Option ι) : Store ι :=
  fun i => if o = some i then (σ i).map (fun x => (v, x.2)) else σ i

@[simp] theorem relinkNext_none (σ : Store ι) (v : Option ι) : relinkNext σ none v = σ := by
  funext i; simp [relinkNext]

@[simp] theorem relinkPrev_none (σ : Store ι) (v : Option ι) : relinkPrev σ none v = σ := by
  funext i; simp [relinkPrev]

theorem relinkNext_of_ne {σ : Store ι} {o v : Option ι} {i : ι} (h : o ≠ some i) : relinkNext σ o v i = σ i := by
  simp [relinkNext, h]

theorem relinkPrev_of_ne {σ : Store ι} {o v : Option ι} {i : ι} (h : o ≠ some i) : relinkPrev σ o v i = σ i := by
  simp [relinkPrev, h]

omit [DecidableEq ι] in
theorem chain_append (σ : Store ι) : ∀ (p : Option ι) (l₁ l₂ : List ι) (q : Option ι),
    Chain σ p (l₁ ++ l₂) q ↔ Chain σ p l₁ (l₂.head?.or q) ∧ Chain σ (l₁.getLast?.or p) l₂ q
  | p, [], l₂, q => by simp [Chain]
  | p, i :: l₁, l₂, q => by
    have hhead : (l₁ ++ l₂).head?.or q = l₁.head?.or (l₂.head?.or q) := by cases l₁ <;> simp
    have hlast : l₁.getLast?.or (some i) = (i :: l₁).getLast?.or p := by
      rw [List.getLast?_cons]; cases l₁.getLast? <;> rfl
    simp only [List.cons_append, Chain, chain_append σ (some i) l₁ l₂ q, hhead, hlast, and_assoc]

omit [DecidableEq ι] in
theorem Chain.congr {σ τ : Store ι} : ∀ {p : Option ι} {l : List ι} {q : Option ι},
    Chain σ p l q → (∀ i ∈ l, τ i = σ i) → Chain τ p l q
  | _, [], _, _, _ => trivial
  | _, i :: l, _, h, heq =>
    ⟨(heq i (by simp)).trans h.1, h.2.congr (fun j hj => heq j (by simp [hj]))⟩

theorem Chain.relinkNext {σ : Store ι} (v : Option ι) : ∀ {p : Option ι} {l : List ι} {q : Option ι},
    Chain σ p l q → l.Nodup → Chain (relinkNext σ l.getLast? v) p l v
  | _, [], _, _, _ => trivial
  | p, [i], q, h, _ => by
    simp only [Chain, List.head?_nil, Option.none_or] at h
    simp [Chain, Chains.relinkNext, h.1]
  | p, i :: j :: l, q, h, hnd => by
    rw [List.nodup_cons] at hnd
    have hlast : (i :: j :: l).getLast? = (j :: l).getLast? := by simp [List.getLast?_cons]
    have hi : (j :: l).getLast? ≠ some i := fun he => hnd.1 (List.mem_of_getLast? he)
    rw [hlast]
    refine ⟨?_, h.2.relinkNext v hnd.2⟩
    rw [relinkNext_of_ne hi, h.1]
    rfl

theorem Chain.relinkPrev {σ : Store ι} (v : Option ι) {p : Option ι} {l : List ι} {q : Option ι}
    (h : Chain σ p l q) (hnd : l.Nodup) : Chain (relinkPrev σ l.head? v) v l q := by
  cases l with
  | nil => trivial
  | cons i l =>
    rw [List.nodup_cons] at hnd
    refine ⟨by simp [Chains.relinkPrev, h.1], h.2.congr (fun j hj => ?_)⟩
    exact relinkPrev_of_ne (by simp only [List.head?_cons, ne_eq, Option.some.injEq]; rintro rfl; exact hnd.1 hj)

omit [DecidableEq ι] in
theorem Chain.at_middle {σ : Store ι} {l₁ l₂ : List ι} {i : ι} (h : Chain σ none (l₁ ++ i :: l₂) none) :
    σ i = some (l₁.getLast?, l₂.head?) := by
  have := ((chain_append σ none l₁ (i :: l₂) none).1 h).2.1
  simpa using this

omit [DecidableEq ι] in
/-- **In a whole chain the two directions are inverse**: a cell is its successor's predecessor. -/
theorem Chain.next_iff_prev {σ : Store ι} {l : List ι} (h : Chain σ none l none) (hout : ∀ i, i ∉ l → σ i = none)
    (i j : ι) : (σ i).bind Prod.snd = some j ↔ (σ j).bind Prod.fst = some i := by
  constructor
  · intro hij
    have hi : i ∈ l := by
      refine Classical.byContradiction (fun hn => ?_)
      rw [hout i hn] at hij; cases hij
    obtain ⟨l₁, l₂, rfl⟩ := List.append_of_mem hi
    rw [h.at_middle] at hij
    cases l₂ with
    | nil => cases hij
    | cons b l₂ =>
      obtain rfl : b = j := by simpa using hij
      rw [List.append_cons] at h
      rw [h.at_middle]
      simp
  · intro hji
    have hj : j ∈ l := by
      refine Classical.byContradiction (fun hn => ?_)
      rw [hout j hn] at hji; cases hji
    obtain ⟨l₁, l₂, rfl⟩ := List.append_of_mem hj
    rw [h.at_middle] at hji
    obtain ⟨l₁', rfl⟩ : ∃ l', l₁ = l' ++ [i] := List.getLast?_eq_some_iff.1 hji
    rw [List.append_assoc] at h
    rw [Chain.at_middle h]
    rfl

theorem Chain.unlink {σ τ : Store ι} {l₁ l₂ : List ι} {i : ι} (h : Chain σ none (l₁ ++ i :: l₂) none)
    (hnd : (l₁ ++ i :: l₂).Nodup) (hτ : ∀ j, j ≠ i → τ j = σ j) :
    Chain (Chains.relinkPrev (Chains.relinkNext τ l₁.getLast? l₂.head?) l₂.head? l₁.getLast?) none (l₁ ++ l₂) none := by
  obtain ⟨h₁, -, h₂⟩ := (chain_append σ none l₁ (i :: l₂) none).1 h
  obtain ⟨hnd₁, hnd₂, hdisj⟩ := List.nodup_append.1 hnd
  rw [List.nodup_cons] at hnd₂
  have hi₁ : ∀ j ∈ l₁, j ≠ i := fun j hj => hdisj j hj i (by simp)
  have hi₂ : ∀ j ∈ l₂, j ≠ i := fun j hj he => hnd₂.1 (he ▸ hj)
  have h₁₂ : ∀ a ∈ l₁, ∀ b ∈ l₂, a ≠ b := fun a ha b hb => hdisj a ha b (by simp [hb])
  refine (chain_append _ none l₁ l₂ none).2 ⟨?_, ?_⟩
  · -- the left part: only its last forward link moves
    rw [Option.or_none]
    refine ((h₁.congr (fun j hj => hτ j (hi₁ j hj))).relinkNext l₂.head? hnd₁).congr (fun j hj => ?_)
    exact relinkPrev_of_ne (fun he => h₁₂ j hj j (List.mem_of_head? he) rfl)
  · -- the right part: only its first backward link moves
    rw [Option.or_none]
    refine ((h₂.congr (fun j hj => ?_)).relinkPrev l₁.getLast? hnd₂.2)
    rw [relinkNext_of_ne (fun he => h₁₂ j (List.mem_of_getLast? he) j hj rfl), hτ j (hi₂ j hj)]

theorem Chain.pushFront {σ τ : Store ι} {l : List ι} {i : ι} (h : Chain σ none l none) (hnd : l.Nodup) (hi : i ∉ l)
    (hτi : τ i = some (none, l.head?)) (hτ : ∀ j, j ≠ i → τ j = σ j) :
    Chain (Chains.relinkPrev τ l.head? (some i)) none (i :: l) none := by
  refine ⟨?_, (h.congr (fun j hj => hτ j (fun he => hi (he ▸ hj)))).relinkPrev (some i) hnd⟩
  rw [relinkPrev_of_ne (fun he => hi (List.mem_of_head? he)), hτi, Option.or_none]

end Chains
