import Mathlib
/-!
# Processes behind a spin lock

Processes share a memory `M` and one lock word.  A process takes the lock by swapping 0 for 1 and releases it by
swapping 1 for 0, and tries again where the swap fails; between the two it makes single accesses to the memory.  Steps
of the processes interleave in any order, as one sequence: the accesses are sequentially consistent.

A program (`Code`) touches the memory only between its own take and release.  Such a program runs as if every section
were one step:
* no two processes are inside at once (`Follows.exclusive`);
* while the lock is free the two runs are in the same state, and while it is held they differ by the section of the
  holder only (`Follows`), so the sections happen in the order in which they release (`Follows.run`);
* a release never has to try twice.

Progress needs a fair schedule.  A step gets something done, or its process has stopped, or it spins on a lock that
another holds (`Follows.progress`); and the holder never waits.  So each round that schedules every process lowers the
sum of what is left to do (`Follows.round`), and everything ends after as many rounds as there is work
(`Follows.finishes`).  Memory, processes and programs are arbitrary.
-/
namespace SpinLock

variable {P M L : Type}

inductive Instr (M L : Type)
  | stop
  | work (l : L)
  | take (l : L)
  | access (f : M → L × M)
  | release (l : L)

/-- Private work and the take stand outside a section, accesses and the release inside. -/
def Instr.Respects (inside : L → Bool) (now : Bool) : Instr M L → Prop
  | .stop => now = false
  | .work l => now = false ∧ inside l = false
  | .take l => now = false ∧ inside l = true
  | .access f => now = true ∧ ∀ m, inside (f m).1 = true
  | .release l => now = true ∧ inside l = false

structure Code (M L : Type) where
  next : L → Instr M L
  inside : L → Bool
  respects : ∀ l, (next l).Respects inside (inside l)

structure Machine (P M L : Type) where
  lock : Nat
  mem : M
  loc : P → L

variable [DecidableEq P] (C : Code M L)

namespace Code

/-- One step of process `p`; a swap that fails leaves everything as it is. -/
def step (s : Machine P M L) (p : P) : Machine P M L :=
  match C.next (s.loc p) with
  | .stop => s
  | .work l => { s with loc := Function.update s.loc p l }
  | .take l => if s.lock = 0 then { s with lock := 1, loc := Function.update s.loc p l } else s
  | .access f => { s with mem := (f s.mem).2, loc := Function.update s.loc p (f s.mem).1 }
  | .release l => if s.lock = 1 then { s with lock := 0, loc := Function.update s.loc p l } else s

def run (s : Machine P M L) (schedule : List P) : Machine P M L := schedule.foldl C.step s

/-! ## Atomic sections -/

def Accesses (x y : L × M) : Prop := ∃ f, C.next x.1 = .access f ∧ y = f x.2

def Section (x y : L × M) : Prop :=
  ∃ l, Relation.ReflTransGen C.Accesses x (l, y.2) ∧ C.next l = .release y.1

/-- A step of the processes with every section in one piece: no lock. -/
inductive Atomic (a : M × (P → L)) (p : P) : M × (P → L) → Prop
  | work (l : L) (hnext : C.next (a.2 p) = .work l) : Atomic a p (a.1, Function.update a.2 p l)
  | sect (l l' : L) (m : M) (hnext : C.next (a.2 p) = .take l) (hsect : C.Section (l, a.1) (l', m)) :
      Atomic a p (m, Function.update a.2 p l')

inductive AtomicRun : M × (P → L) → List P → M × (P → L) → Prop
  | nil (a : M × (P → L)) : AtomicRun a [] a
  | cons {a b c : M × (P → L)} {p : P} {ps : List P} (hstep : C.Atomic a p b) (hrest : AtomicRun b ps c) :
      AtomicRun a (p :: ps) c

/-- What the steps with the lock have to do with the steps in one piece: the same state while the lock is free, and
while it is held everything is as before the holder's take, but for what the holder did since. -/
inductive Follows (a : M × (P → L)) (s : Machine P M L) : Prop
  | free (hlock : s.lock = 0) (hmem : s.mem = a.1) (hloc : s.loc = a.2) (hout : ∀ p, C.inside (a.2 p) = false)
  | held (h : P) (l : L) (hlock : s.lock = 1) (hout : ∀ p, C.inside (a.2 p) = false) (hin : C.inside (s.loc h) = true)
      (htake : C.next (a.2 h) = .take l) (hsince : Relation.ReflTransGen C.Accesses (l, a.1) (s.loc h, s.mem))
      (hothers : ∀ p, p ≠ h → s.loc p = a.2 p)

variable {C}

theorem Follows.exclusive {a : M × (P → L)} {s : Machine P M L} (h : C.Follows a s) {p q : P}
    (hp : C.inside (s.loc p) = true) (hq : C.inside (s.loc q) = true) : p = q ∧ s.lock = 1 := by
  cases h with
  | free hlock hmem hloc hout =>
    rw [hloc, hout] at hp
    cases hp
  | held h l hlock hout hin htake hsince hothers =>
    have hholder : ∀ r, C.inside (s.loc r) = true → r = h := by
      intro r hr
      by_contra hne
      rw [hothers r hne, hout] at hr
      cases hr
    exact ⟨(hholder p hp).trans (hholder q hq).symm, hlock⟩

/-- The holder's next step: one more access, or the release that makes the section one step. -/
theorem Follows.holder {a : M × (P → L)} {s : Machine P M L} {h : P} {l : L} (hlock : s.lock = 1)
    (hout : ∀ p, C.inside (a.2 p) = false) (hin : C.inside (s.loc h) = true) (htake : C.next (a.2 h) = .take l)
    (hsince : Relation.ReflTransGen C.Accesses (l, a.1) (s.loc h, s.mem)) (hothers : ∀ p, p ≠ h → s.loc p = a.2 p) :
    C.Follows a (C.step s h) ∨ ∃ b, C.Atomic a h b ∧ C.Follows b (C.step s h) := by
  have hresp := C.respects (s.loc h)
  cases hn : C.next (s.loc h) with
  | stop =>
    rw [hn, hin] at hresp
    cases hresp
  | work l' =>
    rw [hn, hin] at hresp
    cases hresp.1
  | take l' =>
    rw [hn, hin] at hresp
    cases hresp.1
  | access f =>
    rw [hn, hin] at hresp
    left
    have hstep : C.step s h = { s with mem := (f s.mem).2, loc := Function.update s.loc h (f s.mem).1 } := by
      simp only [step, hn]
    rw [hstep]
    refine .held h l hlock hout ?_ htake ?_ ?_
    · simpa using hresp.2 s.mem
    · simpa using hsince.tail ⟨f, hn, rfl⟩
    · intro p hp
      simpa [hp] using hothers p hp
  | release l' =>
    rw [hn, hin] at hresp
    right
    have hstep : C.step s h = { s with lock := 0, loc := Function.update s.loc h l' } := by
      simp only [step, hn, hlock, if_true]
    have hloc : Function.update s.loc h l' = Function.update a.2 h l' := by
      funext p
      by_cases hp : p = h
      · subst hp
        simp
      · simp [hp, hothers p hp]
    refine ⟨_, .sect l l' s.mem htake ⟨_, hsince, hn⟩, ?_⟩
    rw [hstep]
    refine .free rfl rfl hloc fun p => ?_
    by_cases hp : p = h
    · subst hp
      simpa using hresp.2
    · simpa [hp] using hout p

theorem Follows.outsider {a : M × (P → L)} {s : Machine P M L} (hf : C.Follows a s) {p : P}
    (hp : C.inside (s.loc p) = false) :
    C.Follows a (C.step s p) ∨ ∃ b, C.Atomic a p b ∧ C.Follows b (C.step s p) := by
  have hresp := C.respects (s.loc p)
  have hsame : s.loc p = a.2 p := by
    cases hf with
    | free hlock hmem hloc hout => rw [hloc]
    | held h l hlock hout hin htake hsince hothers =>
      refine hothers p fun he => ?_
      rw [he, hin] at hp
      cases hp
  cases hn : C.next (s.loc p) with
  | stop =>
    left
    simpa only [step, hn] using hf
  | access f =>
    rw [hn, hp] at hresp
    cases hresp.1
  | release l' =>
    rw [hn, hp] at hresp
    cases hresp.1
  | work l' =>
    rw [hn, hp] at hresp
    right
    have hstep : C.step s p = { s with loc := Function.update s.loc p l' } := by simp only [step, hn]
    have hout' : (∀ q, C.inside (a.2 q) = false) → ∀ q, C.inside (Function.update a.2 p l' q) = false := by
      intro hout q
      by_cases hq : q = p
      · subst hq
        simpa using hresp.2
      · simpa [hq] using hout q
    refine ⟨_, .work l' (hsame ▸ hn), ?_⟩
    rw [hstep]
    cases hf with
    | free hlock hmem hloc hout => exact .free hlock hmem (by rw [hloc]) (hout' hout)
    | held h l hlock hout hin htake hsince hothers =>
      have hne : h ≠ p := by
        intro he
        rw [← he, hin] at hp
        cases hp
      refine .held h l hlock (hout' hout) ?_ ?_ ?_ fun q hq => ?_
      · simpa [hne] using hin
      · simpa [hne] using htake
      · simpa [hne] using hsince
      · by_cases hqp : q = p
        · subst hqp
          simp
        · simpa [hqp] using hothers q hq
  | take l' =>
    rw [hn, hp] at hresp
    left
    cases hf with
    | free hlock hmem hloc hout =>
      have hstep : C.step s p = { s with lock := 1, loc := Function.update s.loc p l' } := by
        simp only [step, hn, hlock, if_true]
      rw [hstep]
      refine .held p l' rfl hout ?_ (hsame ▸ hn) ?_ fun q hq => ?_
      · simpa using hresp.2
      · simp only [Function.update_self, hmem]
        exact .refl
      · simp [hq, hloc]
    | held h l hlock hout hin htake hsince hothers =>
      have hstep : C.step s p = s := by simp [step, hn, hlock]
      rw [hstep]
      exact .held h l hlock hout hin htake hsince hothers

theorem Follows.step {a : M × (P → L)} {s : Machine P M L} (hf : C.Follows a s) (p : P) :
    C.Follows a (C.step s p) ∨ ∃ b, C.Atomic a p b ∧ C.Follows b (C.step s p) := by
  cases hp : C.inside (s.loc p) with
  | false => exact hf.outsider hp
  | true =>
    cases hf with
    | free hlock hmem hloc hout =>
      rw [hloc, hout] at hp
      cases hp
    | held h l hlock hout hin htake hsince hothers =>
      have heq : p = h := by
        by_contra hne
        rw [hothers p hne, hout] at hp
        cases hp
      subst heq
      exact Follows.holder hlock hout hin htake hsince hothers

/-- **Atomicity**: whatever the schedule, the processes are where running the sections in one piece leads, some of the
scheduled steps standing for a whole section. -/
theorem Follows.run : ∀ {a : M × (P → L)} {s : Machine P M L} (schedule : List P), C.Follows a s →
    ∃ ps b, ps.Sublist schedule ∧ C.AtomicRun a ps b ∧ C.Follows b (C.run s schedule)
  | a, s, [], hf => ⟨[], a, List.Sublist.refl [], .nil a, hf⟩
  | a, s, p :: schedule, hf => by
    rcases hf.step p with hf' | ⟨b, hb, hf'⟩
    · obtain ⟨ps, c, hsub, hrun, hc⟩ := Follows.run schedule hf'
      exact ⟨ps, c, hsub.cons p, hrun, hc⟩
    · obtain ⟨ps, c, hsub, hrun, hc⟩ := Follows.run schedule hf'
      exact ⟨p :: ps, c, hsub.cons_cons p, .cons hb hrun, hc⟩

omit [DecidableEq P] in
theorem follows_start (m : M) (loc : P → L) (hout : ∀ p, C.inside (loc p) = false) :
    C.Follows (m, loc) ⟨0, m, loc⟩ := .free rfl rfl rfl hout

/-! ## Progress -/

variable (C) in
def Lowers (μ : L → Nat) : Prop :=
  ∀ l, match C.next l with
    | .stop => True
    | .work l' | .take l' | .release l' => μ l' < μ l
    | .access f => ∀ m, μ (f m).1 < μ l

variable {μ : L → Nat} [Fintype P]

def left (μ : L → Nat) (s : Machine P M L) : Nat := ∑ p, μ (s.loc p)

theorem left_update (s t : Machine P M L) (p : P) (l : L) (hloc : t.loc = Function.update s.loc p l)
    (hl : μ l < μ (s.loc p)) : left μ t < left μ s := by
  unfold left
  refine Finset.sum_lt_sum (fun q _ => ?_) ⟨p, Finset.mem_univ p, ?_⟩
  · by_cases hq : q = p
    · subst hq
      rw [hloc, Function.update_self]
      exact hl.le
    · rw [hloc, Function.update_of_ne hq]
  · rw [hloc, Function.update_self]
    exact hl

/-- A step gets something done, or the process has stopped, or it spins on a lock that another holds. -/
theorem Follows.progress {a : M × (P → L)} {s : Machine P M L} (hf : C.Follows a s) (hμ : C.Lowers μ) (p : P) :
    left μ (C.step s p) < left μ s ∨
      C.step s p = s ∧ (C.next (s.loc p) = .stop ∨ ∃ l, C.next (s.loc p) = .take l ∧ s.lock = 1) := by
  have hlow := hμ (s.loc p)
  have hresp := C.respects (s.loc p)
  cases hn : C.next (s.loc p) with
  | stop => exact Or.inr ⟨by simp only [Code.step, hn], Or.inl rfl⟩
  | work l =>
    rw [hn] at hlow
    exact Or.inl (left_update s (C.step s p) p l (by simp only [Code.step, hn]) hlow)
  | access f =>
    rw [hn] at hlow
    exact Or.inl (left_update s (C.step s p) p _ (by simp only [Code.step, hn]) (hlow s.mem))
  | release l =>
    rw [hn] at hlow hresp
    have hlock := (hf.exclusive hresp.1 hresp.1).2
    exact Or.inl (left_update s (C.step s p) p l (by simp only [Code.step, hn, hlock, if_true]) hlow)
  | take l =>
    rw [hn] at hlow
    by_cases hlock : s.lock = 0
    · exact Or.inl (left_update s (C.step s p) p l (by simp only [Code.step, hn, hlock, if_true]) hlow)
    · refine Or.inr ⟨by simp only [Code.step, hn, hlock, if_false], Or.inr ⟨l, rfl, ?_⟩⟩
      cases hf with
      | free h => exact absurd h hlock
      | held _ _ h => exact h

theorem Follows.progress_run (hμ : C.Lowers μ) : ∀ {a : M × (P → L)} {s : Machine P M L} (ps : List P),
    C.Follows a s → left μ (C.run s ps) < left μ s ∨ C.run s ps = s ∧ ∀ p ∈ ps, C.step s p = s
  | a, s, [], hf => Or.inr ⟨rfl, by simp⟩
  | a, s, p :: ps, hf => by
    obtain ⟨b, hb⟩ : ∃ b, C.Follows b (C.step s p) := by
      rcases hf.step p with h | ⟨b, -, h⟩
      · exact ⟨a, h⟩
      · exact ⟨b, h⟩
    have hle : left μ (C.run (C.step s p) ps) ≤ left μ (C.step s p) := by
      rcases Follows.progress_run hμ ps hb with h | ⟨h, -⟩
      · exact h.le
      · rw [h]
    rcases hf.progress hμ p with hless | ⟨hsame, -⟩
    · exact Or.inl (lt_of_le_of_lt hle hless)
    · have hrun : C.run s (p :: ps) = C.run s ps := by
        show C.run (C.step s p) ps = C.run s ps
        rw [hsame]
      rw [hrun]
      rcases Follows.progress_run hμ ps hf with h | ⟨h, hall⟩
      · exact Or.inl h
      · exact Or.inr ⟨h, by simpa [hsame] using hall⟩

theorem Follows.round {a : M × (P → L)} {s : Machine P M L} (hf : C.Follows a s) (hμ : C.Lowers μ) {round : List P}
    (hround : ∀ p, p ∈ round) :
    left μ (C.run s round) < left μ s ∨ C.run s round = s ∧ ∀ p, C.next (s.loc p) = .stop := by
  rcases hf.progress_run hμ round with h | ⟨hsame, hall⟩
  · exact Or.inl h
  · refine Or.inr ⟨hsame, fun p => ?_⟩
    have hstill : ∀ q, C.next (s.loc q) = .stop ∨ ∃ l, C.next (s.loc q) = .take l ∧ s.lock = 1 := by
      intro q
      rcases hf.progress hμ q with h | ⟨-, h⟩
      · rw [hall q (hround q)] at h
        exact absurd h (lt_irrefl _)
      · exact h
    rcases hstill p with h | ⟨l, -, hlock⟩
    · exact h
    · exfalso
      cases hf with
      | free h => rw [h] at hlock; cases hlock
      | held h l' _ _ hin =>
        -- the holder stands in its section, where neither a stop nor a take can come
        have hresp := C.respects (s.loc h)
        rcases hstill h with hs | ⟨l'', hs, -⟩
        · rw [hs, hin] at hresp
          cases hresp
        · rw [hs, hin] at hresp
          cases hresp.1

/-- **Everything ends** after as many rounds as there is work, in whatever order each round schedules the processes. -/
theorem Follows.finishes (hμ : C.Lowers μ) : ∀ (rounds : List (List P)) {a : M × (P → L)} {s : Machine P M L},
    C.Follows a s → (∀ round ∈ rounds, ∀ p, p ∈ round) → left μ s < rounds.length →
      ∀ p, C.next ((C.run s rounds.flatten).loc p) = .stop
  | [], a, s, _, _, hlen => absurd hlen (Nat.not_lt_zero _)
  | round :: rounds, a, s, hf, hall, hlen => by
    have hsplit : C.run s (round :: rounds).flatten = C.run (C.run s round) rounds.flatten := by
      unfold Code.run
      rw [List.flatten_cons, List.foldl_append]
    obtain ⟨ps, b, -, -, hb⟩ := Follows.run round hf
    rw [hsplit]
    rw [List.length_cons] at hlen
    rcases hf.round hμ (hall round (by simp)) with hless | ⟨hsame, hstop⟩
    · exact Follows.finishes hμ rounds hb (fun r hr => hall r (by simp [hr])) (by omega)
    · rw [hsame]
      have hstay : ∀ ps : List P, C.run s ps = s := by
        intro ps
        induction ps with
        | nil => rfl
        | cons p ps ih =>
          show C.run (C.step s p) ps = s
          have : C.step s p = s := by simp only [Code.step, hstop p]
          rw [this, ih]
      rw [hstay]
      exact hstop

end Code

end SpinLock
