import Mathlib
/-!
# Runs of a fallible step

A component is a step `S → E → Except ε (O × S)`: an event either faults or yields an output and the next state.  `run`
folds a list of events and collects the outputs.  Nothing here knows what the component is; every argument about whole
runs goes through one of these rules.

Rules for one run:
* an invariant of one step holds at the end of a run (`run_inv`);
* a relation between the history and the state that one step extends holds of the whole history (`run_hist`, and
  `run_hist_of` for admissible events) and at every point of it (`run_trace`);
* what every step says about its event and its output holds of the two lists side by side (`run_forall₂`);
* a step that never faults on admissible events, under its invariant, gives a run that never faults (`run_total`).

Rules that compare two runs:
* a run of big steps is a run of the small steps they are made of (`run_refine`, and `run_expand` where the list of
  small steps of a big one is given);
* notes on the steps change nothing else (`run_annotate`), and a translation of the events carries over (`run_map`);
* a part of the state that each step leaves alone or takes one step of its own on runs by itself (`run_project`), and
  one that evolves under a view of the events does not depend on what the view hides (`run_noninterference`);
* a step that simulates a total specification step makes the whole run total, with the specification's outputs
  (`run_sim`).

The rules with a history append at its end, as a run does; `filterMap_append_one` and `flatMap_append_one` say what
that does to a projection of it.
-/
namespace Runs

variable {S T E O ε : Type}

@[simp] theorem ok_bind {α β : Type} (a : α) (f : α → Except ε β) : (Except.ok a >>= f) = f a := rfl

@[simp] theorem error_bind {α β : Type} (e : ε) (f : α → Except ε β) : (Except.error e >>= f) = Except.error e := rfl

theorem bind_eq_ok {α β : Type} {x : Except ε α} {f : α → Except ε β} {b : β} (h : (x >>= f) = .ok b) :
    ∃ a, x = .ok a ∧ f a = .ok b := by
  cases x with
  | error e => cases h
  | ok a => exact ⟨a, rfl, h⟩

theorem ok_of_toOption {α : Type} {x : Except ε α} {a : α} (h : x.toOption = some a) : x = .ok a := by
  cases x with
  | error e => cases h
  | ok b => exact congrArg Except.ok (Option.some.inj h)

/-- The outputs of the events, in order, and the last state; the first fault ends the run. -/
def run (step : S → E → Except ε (O × S)) : S → List E → Except ε (List O × S)
  | s, [] => .ok ([], s)
  | s, e :: es => do
    let (o, s₁) ← step s e
    let (os, s₂) ← run step s₁ es
    .ok (o :: os, s₂)

def runSpec (step : T → E → O × T) : T → List E → List O × T
  | t, [] => ([], t)
  | t, e :: es =>
    let r := step t e
    let rest := runSpec step r.2 es
    (r.1 :: rest.1, rest.2)

theorem run_one {step : S → E → Except ε (O × S)} {s s' : S} {e : E} {o : O} (h : step s e = .ok (o, s')) :
    run step s [e] = .ok ([o], s') := by
  simp only [run, h, ok_bind]

theorem run_cons_ok {step : S → E → Except ε (O × S)} {s s' : S} {e : E} {es : List E} {os : List O}
    (h : run step s (e :: es) = .ok (os, s')) :
    ∃ o s₁ os', step s e = .ok (o, s₁) ∧ run step s₁ es = .ok (os', s') ∧ os = o :: os' := by
  rw [run] at h
  obtain ⟨⟨o, s₁⟩, h₁, h⟩ := bind_eq_ok h
  obtain ⟨⟨os', s₂⟩, h₂, h⟩ := bind_eq_ok h
  cases h
  exact ⟨o, s₁, os', h₁, h₂, rfl⟩

theorem length_run {step : S → E → Except ε (O × S)} : ∀ {es : List E} {s s' : S} {os : List O},
    run step s es = .ok (os, s') → os.length = es.length
  | [], s, s', os, h => by
    cases h
    rfl
  | e :: es, s, s', os, h => by
    obtain ⟨o, s₁, os', -, hrest, rfl⟩ := run_cons_ok h
    rw [List.length_cons, List.length_cons, length_run hrest]

/-- **The output rule**: what every step says about its event and its output, of all of them in order. -/
theorem run_forall₂ {step : S → E → Except ε (O × S)} {P : E → O → Prop}
    (hstep : ∀ s e o s', step s e = .ok (o, s') → P e o) : ∀ {es : List E} {s s' : S} {os : List O},
    run step s es = .ok (os, s') → List.Forall₂ P es os
  | [], s, s', os, h => by
    cases h
    exact List.Forall₂.nil
  | e :: es, s, s', os, h => by
    obtain ⟨o, s₁, os', h₁, h₂, rfl⟩ := run_cons_ok h
    exact List.Forall₂.cons (hstep s e o s₁ h₁) (run_forall₂ hstep h₂)

theorem filterMap_append_one {A B : Type} (f : A → Option B) (l : List A) (a : A) :
    (l ++ [a]).filterMap f = l.filterMap f ++ (f a).toList := by
  rw [List.filterMap_append]
  cases h : f a with
  | none => simp [h]
  | some b => simp [h]

theorem flatMap_append_one {A B : Type} (f : A → List B) (l : List A) (a : A) :
    (l ++ [a]).flatMap f = l.flatMap f ++ f a := by
  rw [List.flatMap_append, List.flatMap_singleton]

/-- **The invariant rule**: what one step preserves holds at the end of every run. -/
theorem run_inv {step : S → E → Except ε (O × S)} (I : S → Prop)
    (hstep : ∀ s e o s', I s → step s e = .ok (o, s') → I s') :
    ∀ (es : List E) (s : S) (os : List O) (s' : S), I s → run step s es = .ok (os, s') → I s'
  | [], s, os, s', hs, h => by cases h; exact hs
  | e :: es, s, os, s', hs, h => by
    obtain ⟨o, s₁, os', h₁, h₂, -⟩ := run_cons_ok h
    exact run_inv I hstep es s₁ os' s' (hstep s e o s₁ hs h₁) h₂

/-- **The history rule**: a relation between the outputs so far and the state that every step extends. -/
theorem run_hist {step : S → E → Except ε (O × S)} (I : List O → S → Prop)
    (hstep : ∀ h s e o s', I h s → step s e = .ok (o, s') → I (h ++ [o]) s') :
    ∀ (es : List E) (h : List O) (s : S) (os : List O) (s' : S), I h s → run step s es = .ok (os, s') → I (h ++ os) s'
  | [], h, s, os, s', hs, hr => by cases hr; simpa using hs
  | e :: es, h, s, os, s', hs, hr => by
    obtain ⟨o, s₁, os', h₁, h₂, rfl⟩ := run_cons_ok hr
    have := run_hist I hstep es (h ++ [o]) s₁ os' s' (hstep h s e o s₁ hs h₁) h₂
    simpa using this

/-- **The trace rule**: what every step says about the history before it and its own output holds at every point of the
outputs. -/
theorem run_trace {step : S → E → Except ε (O × S)} (I : List O → S → Prop) (P : List O → O → Prop)
    (hstep : ∀ h s e o s', I h s → step s e = .ok (o, s') → I (h ++ [o]) s' ∧ P h o) :
    ∀ (es : List E) (h : List O) (s : S) (os : List O) (s' : S), I h s → run step s es = .ok (os, s') →
      ∀ pre o post, os = pre ++ o :: post → P (h ++ pre) o
  | [], h, s, os, s', hs, hr, pre, o, post, hsplit => by
    cases hr
    cases pre <;> cases hsplit
  | e :: es, h, s, os, s', hs, hr, pre, o, post, hsplit => by
    obtain ⟨o₁, s₁, os', h₁, h₂, rfl⟩ := run_cons_ok hr
    obtain ⟨hI, hP⟩ := hstep h s e o₁ s₁ hs h₁
    cases pre with
    | nil =>
      cases hsplit
      simpa using hP
    | cons p pre =>
      cases hsplit
      have := run_trace I P hstep es (h ++ [o₁]) s₁ _ s' hI h₂ pre o post rfl
      simpa using this

theorem run_append {step : S → E → Except ε (O × S)} : ∀ {es₁ es₂ : List E} {s s₁ s₂ : S} {os₁ os₂ : List O},
    run step s es₁ = .ok (os₁, s₁) → run step s₁ es₂ = .ok (os₂, s₂) → run step s (es₁ ++ es₂) = .ok (os₁ ++ os₂, s₂)
  | [], es₂, s, s₁, s₂, os₁, os₂, h₁, h₂ => by
    cases h₁
    simpa using h₂
  | e :: es₁, es₂, s, s₁, s₂, os₁, os₂, h₁, h₂ => by
    obtain ⟨o, s', os', he, hrest, rfl⟩ := run_cons_ok h₁
    simp [run, he, run_append hrest h₂]

theorem run_map {D : Type} {step : S → D → Except ε (O × S)} {step' : S → E → Except ε (O × S)} (f : D → E)
    (hstep : ∀ s d, step s d = step' s (f d)) : ∀ (ds : List D) (s : S), run step s ds = run step' s (ds.map f)
  | [], s => rfl
  | d :: ds, s => by
    rw [List.map_cons, run, run, hstep]
    cases step' s (f d) with
    | error e => rfl
    | ok r => simp only [ok_bind, run_map f hstep ds]

/-- **The refinement rule**: a big step that is a run of small steps makes every run of big steps a run of small ones,
with the same outputs in the same order. -/
theorem run_refine {C : Type} {big : S → C → Except ε (List O × S)} {step : S → E → Except ε (O × S)}
    (hbig : ∀ s c os s', big s c = .ok (os, s') → ∃ es, run step s es = .ok (os, s')) :
    ∀ (cs : List C) (s : S) (oss : List (List O)) (s' : S), run big s cs = .ok (oss, s') →
      ∃ es, run step s es = .ok (oss.flatten, s')
  | [], s, oss, s', h => by
    cases h
    exact ⟨[], rfl⟩
  | c :: cs, s, oss, s', h => by
    obtain ⟨os, s₁, oss', h₁, h₂, rfl⟩ := run_cons_ok h
    obtain ⟨es₁, e₁⟩ := hbig s c os s₁ h₁
    obtain ⟨es₂, e₂⟩ := run_refine hbig cs s₁ oss' s' h₂
    exact ⟨es₁ ++ es₂, run_append e₁ e₂⟩

/-- **The expansion rule**: where each big step is the run of its own list of small ones, a run of big steps is the run of
all their lists. -/
theorem run_expand {C : Type} {big : S → C → Except ε (List O × S)} {step : S → E → Except ε (O × S)} (expand : C → List E)
    (hbig : ∀ s c, big s c = run step s (expand c)) : ∀ (cs : List C) (s : S) (oss : List (List O)) (s' : S),
    run big s cs = .ok (oss, s') → run step s (cs.flatMap expand) = .ok (oss.flatten, s')
  | [], s, oss, s', h => by
    cases h
    rfl
  | c :: cs, s, oss, s', h => by
    obtain ⟨os, s₁, oss', h₁, h₂, rfl⟩ := run_cons_ok h
    rw [List.flatMap_cons, List.flatten_cons]
    exact run_append (hbig s c ▸ h₁) (run_expand expand hbig cs s₁ oss' s' h₂)

/-- A step with a note on the state it starts from and its output. -/
def annotate {A : Type} (step : S → E → Except ε (O × S)) (note : S → O → A) (s : S) (e : E) :
    Except ε ((O × A) × S) := do
  let (o, s') ← step s e
  .ok ((o, note s o), s')

theorem annotate_ok {A : Type} {step : S → E → Except ε (O × S)} {note : S → O → A} {s s' : S} {e : E} {o : O × A}
    (h : annotate step note s e = .ok (o, s')) : step s e = .ok (o.1, s') ∧ o.2 = note s o.1 := by
  obtain ⟨⟨o', s''⟩, h', h⟩ := bind_eq_ok h
  cases h
  exact ⟨h', rfl⟩

/-- **The annotation rule**: every run is a run with notes. -/
theorem run_annotate {A : Type} {step : S → E → Except ε (O × S)} (note : S → O → A) :
    ∀ (es : List E) (s : S) (os : List O) (s' : S), run step s es = .ok (os, s') →
      ∃ notes, run (annotate step note) s es = .ok (notes, s') ∧ notes.map Prod.fst = os
  | [], s, os, s', h => by
    cases h
    exact ⟨[], rfl, rfl⟩
  | e :: es, s, os, s', h => by
    obtain ⟨o, s₁, os', h₁, h₂, rfl⟩ := run_cons_ok h
    obtain ⟨notes, hrun, hnotes⟩ := run_annotate note es s₁ os' s' h₂
    exact ⟨(o, note s o) :: notes, by simp [run, annotate, h₁, hrun], by simp [hnotes]⟩

/-- **The projection rule**: a part of the state that each step either leaves alone or moves by a step of its own, as
the view of the event says, runs on the viewed events. -/
theorem run_project {P D Q : Type} {step : S → E → Except ε (O × S)} {part : P → D → Except ε (Q × P)} {proj : S → P}
    {view : E → Option D} (hhide : ∀ s e o s', view e = none → step s e = .ok (o, s') → proj s' = proj s)
    (hview : ∀ s e d o s', view e = some d → step s e = .ok (o, s') → ∃ q, part (proj s) d = .ok (q, proj s')) :
    ∀ (es : List E) (s : S) (os : List O) (s' : S), run step s es = .ok (os, s') →
      ∃ qs, run part (proj s) (es.filterMap view) = .ok (qs, proj s')
  | [], s, os, s', h => by
    cases h
    exact ⟨[], rfl⟩
  | e :: es, s, os, s', h => by
    obtain ⟨o, s₁, os', h₁, h₂, -⟩ := run_cons_ok h
    obtain ⟨qs, hqs⟩ := run_project hhide hview es s₁ os' s' h₂
    cases hv : view e with
    | none =>
      rw [List.filterMap_cons_none hv, ← hhide s e o s₁ hv h₁]
      exact ⟨qs, hqs⟩
    | some d =>
      obtain ⟨q, hq⟩ := hview s e d o s₁ hv h₁
      exact ⟨q :: qs, by rw [List.filterMap_cons_some hv]; simp [run, hq, hqs]⟩

/-- **The noninterference rule**: two runs that look the same through the view leave the same part behind. -/
theorem run_noninterference {P D Q : Type} {step : S → E → Except ε (O × S)} (part : P → D → Except ε (Q × P))
    {proj : S → P} {view : E → Option D}
    (hhide : ∀ s e o s', view e = none → step s e = .ok (o, s') → proj s' = proj s)
    (hview : ∀ s e d o s', view e = some d → step s e = .ok (o, s') → ∃ q, part (proj s) d = .ok (q, proj s'))
    {es es' : List E} {s t s' t' : S} {os os' : List O} (hsame : es.filterMap view = es'.filterMap view)
    (hstart : proj s = proj t) (h : run step s es = .ok (os, s')) (h' : run step t es' = .ok (os', t')) :
    proj s' = proj t' := by
  obtain ⟨qs, hqs⟩ := run_project hhide hview es s os s' h
  obtain ⟨qs', hqs'⟩ := run_project hhide hview es' t os' t' h'
  rw [hsame, hstart, hqs'] at hqs
  exact (Prod.mk.inj (Except.ok.inj hqs)).2.symm

/-- **The totality rule**: a step that never faults on admissible events, under an invariant it preserves, gives a run
that never faults. -/
theorem run_total {step : S → E → Except ε (O × S)} (A : E → Prop) (I : S → Prop)
    (hstep : ∀ s e, A e → I s → ∃ o s', step s e = .ok (o, s') ∧ I s') :
    ∀ (es : List E) (s : S), (∀ e ∈ es, A e) → I s → ∃ os s', run step s es = .ok (os, s') ∧ I s'
  | [], s, _, hs => ⟨[], s, rfl, hs⟩
  | e :: es, s, hA, hs => by
    obtain ⟨o, s₁, h₁, hs₁⟩ := hstep s e (hA e (by simp)) hs
    obtain ⟨os, s₂, h₂, hs₂⟩ := run_total A I hstep es s₁ (fun e he => hA e (by simp [he])) hs₁
    exact ⟨o :: os, s₂, by simp [run, h₁, h₂], hs₂⟩

/-- **The simulation rule**: a step that follows a total specification step never faults, and the run's outputs are
the specification's. -/
theorem run_sim {step : S → E → Except ε (O × S)} {spec : T → E → O × T} (R : S → T → Prop)
    (hstep : ∀ s t e, R s t → ∃ s', step s e = .ok ((spec t e).1, s') ∧ R s' (spec t e).2) :
    ∀ (es : List E) (s : S) (t : T), R s t →
      ∃ s', run step s es = .ok ((runSpec spec t es).1, s') ∧ R s' (runSpec spec t es).2
  | [], s, t, hR => ⟨s, rfl, hR⟩
  | e :: es, s, t, hR => by
    obtain ⟨s₁, h₁, hR₁⟩ := hstep s t e hR
    obtain ⟨s₂, h₂, hR₂⟩ := run_sim R hstep es s₁ _ hR₁
    exact ⟨s₂, by simp [run, runSpec, h₁, h₂], hR₂⟩

end Runs
