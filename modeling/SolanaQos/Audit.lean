import Mathlib
/-!
# Audited computations

A computation that passes a verdict on some of its steps: the writer monad over a list of booleans, on top of a
computation that may fail.  The verdicts are a second reading of the same computation and not a second computation:
forgetting them leaves the plain one (`result_bind`, `result_foldlM`).

`Passes` says that every verdict was favourable.  A sequence passes when its parts do (`Passes.bind`), and a loop when
an invariant of what is left of the list makes every turn pass (`passes_foldlM`).  Conversely a loop whose list of
verdicts is empty took only turns without one (`result_foldlM_of_silent`), so that what is true of such turns is true
of the loop.
-/

abbrev Audit := Writer (List Bool)

namespace Audit

variable {α β : Type}

def result (x : Audit α) : α := (WriterT.run x).1

def verdicts (x : Audit α) : List Bool := (WriterT.run x).2

/-- A result with a verdict on how it came about. -/
def judge (verdict : Bool) (a : α) : Audit α := WriterT.mk (a, [verdict])

def Passes (x : Audit α) : Prop := ∀ verdict ∈ x.verdicts, verdict = true

@[simp] theorem result_pure (a : α) : result (pure a) = a := rfl

@[simp] theorem result_bind (x : Audit α) (f : α → Audit β) : result (x >>= f) = (f x.result).result := rfl

theorem verdicts_bind (x : Audit α) (f : α → Audit β) :
    verdicts (x >>= f) = x.verdicts ++ (f x.result).verdicts := rfl

@[simp] theorem result_foldlM (f : β → α → Audit β) : ∀ (l : List α) (b : β),
    result (l.foldlM f b) = l.foldl (fun b a => (f b a).result) b
  | [], b => rfl
  | a :: l, b => by rw [List.foldlM_cons, result_bind, result_foldlM f l, List.foldl_cons]

theorem passes_pure (a : α) : Passes (pure a) := by
  intro verdict h
  cases h

theorem passes_judge {verdict : Bool} (h : verdict = true) (a : α) : Passes (judge verdict a) := by
  intro verdict' h'
  rw [List.mem_singleton.1 h', h]

theorem Passes.bind {x : Audit α} {f : α → Audit β} (hx : x.Passes) (hf : (f x.result).Passes) : Passes (x >>= f) := by
  intro verdict h
  rw [verdicts_bind, List.mem_append] at h
  rcases h with h | h
  · exact hx verdict h
  · exact hf verdict h

/-- **The loop rule**: the invariant speaks of what is left of the list. -/
theorem passes_foldlM {f : β → α → Audit β} (I : List α → β → Prop)
    (hstep : ∀ a l b, I (a :: l) b → (f b a).Passes ∧ I l (f b a).result) :
    ∀ (l : List α) (b : β), I l b → Passes (l.foldlM f b)
  | [], b, _ => passes_pure b
  | a :: l, b, h => by
    obtain ⟨hpass, hrest⟩ := hstep a l b h
    rw [List.foldlM_cons]
    exact hpass.bind (passes_foldlM I hstep l _ hrest)

/-- **A loop without a verdict**, of turns that change nothing unless they pass one, changes nothing. -/
theorem result_foldlM_of_silent {f : β → α → Audit β} (hf : ∀ b a, (f b a).verdicts = [] → (f b a).result = b) :
    ∀ (l : List α) (b : β), (l.foldlM f b).verdicts = [] → (l.foldlM f b).result = b
  | [], b, _ => rfl
  | a :: l, b, h => by
    rw [List.foldlM_cons, verdicts_bind, List.append_eq_nil_iff] at h
    rw [List.foldlM_cons, result_bind]
    rw [hf b a h.1] at h ⊢
    exact result_foldlM_of_silent hf l b h.2

end Audit
