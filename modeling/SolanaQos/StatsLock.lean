import SolanaQos.SharedStats
import SolanaQos.SpinLock
/-!
# The statistics behind their lock, word by word (`common/src/shared_stats.rs`)

`SharedStats::{reset, read, update}` as they run in several processes at once: every access to a word of the shared
record is a step of its own, and only `Lock::take` and `Lock::release` keep the processes apart.  Any number of viewers
reset and read while the pipeline counts and updates.  The accesses interleave as one sequence; what the weaker memory
orderings of the swaps would allow besides is outside this model.  The clone of a record goes through its words in the
order of their declaration, and what a process does with the answer of `update` is part of its last step.

The program of a process (`code`) is one of those that the lock protects: it touches the record inside its sections
only.  So the library applies, and what is left is to see what a section in one piece does:
* `finish` is what is left of a section from any point within it, all at once, and every section ends as it says
  (`finish_section`);
* a step in one piece is the first step of what the process has to do, in the sense of the handshake model
  (`atomic_did`);
* the steps in one piece, in the order in which they happen, are an order of the steps done so far that keeps each
  process's own (`Ordered`).

From it, three results: the sections are atomic (`sharedStats_sections_atomic`), one process at most is inside
(`sharedStats_one_inside`), and under a fair schedule every call returns (`sharedStats_all_finish`), with a bound on
the number of rounds that counts the words of the record.
-/
namespace Qos

namespace Counter

def all : List Counter :=
  [.totalPackets, .nonIpv4, .nonTransactionPacket, .recentlyProcessed, .recentlyProcessedQueued,
    .recentSignaturesReceived, .invalidMetaSize, .failedSanitize, .failedView, .invalidPacketData, .leakedPriority,
    .duplicatePackets, .bankingTransmissions, .zeroScore, .completed]

theorem mem_all (c : Counter) : c ∈ all := by cases c <;> decide

end Counter

namespace Stats

def set (s : Stats) (v : Nat) : Counter → Stats
  | .totalPackets => { s with totalPackets := v }
  | .nonIpv4 => { s with nonIpv4 := v }
  | .nonTransactionPacket => { s with nonTransactionPacket := v }
  | .recentlyProcessed => { s with recentlyProcessed := v }
  | .recentlyProcessedQueued => { s with recentlyProcessedQueued := v }
  | .recentSignaturesReceived => { s with recentSignaturesReceived := v }
  | .invalidMetaSize => { s with invalidMetaSize := v }
  | .failedSanitize => { s with failedSanitize := v }
  | .failedView => { s with failedView := v }
  | .invalidPacketData => { s with invalidPacketData := v }
  | .leakedPriority => { s with leakedPriority := v }
  | .duplicatePackets => { s with duplicatePackets := v }
  | .bankingTransmissions => { s with bankingTransmissions := v }
  | .zeroScore => { s with zeroScore := v }
  | .completed => { s with completed := v }

theorem get_set (s : Stats) (v : Nat) (c k : Counter) : (s.set v c).get k = if c = k then v else s.get k := by
  by_cases h : c = k
  · subst h
    rw [if_pos rfl]
    cases c <;> rfl
  · rw [if_neg h]
    cases c <;> cases k <;> first | rfl | exact absurd rfl h

theorem ext_get {s t : Stats} (h : ∀ c, s.get c = t.get c) : s = t := by
  cases s
  cases t
  simp only [Stats.mk.injEq]
  exact ⟨h .totalPackets, h .nonIpv4, h .nonTransactionPacket, h .recentlyProcessed, h .recentlyProcessedQueued,
    h .recentSignaturesReceived, h .invalidMetaSize, h .failedSanitize, h .failedView, h .invalidPacketData,
    h .leakedPriority, h .duplicatePackets, h .bankingTransmissions, h .zeroScore, h .completed⟩

/-- The words named by `todo` copied from `t` over those of `s`. -/
def copy (t : Stats) (todo : List Counter) (s : Stats) : Stats := todo.foldl (fun s c => s.set (t.get c) c) s

theorem get_copy (t : Stats) : ∀ (todo : List Counter) (s : Stats) (k : Counter),
    (t.copy todo s).get k = if k ∈ todo then t.get k else s.get k
  | [], s, k => by simp [copy]
  | c :: todo, s, k => by
    have hcopy : t.copy (c :: todo) s = t.copy todo (s.set (t.get c) c) := rfl
    rw [hcopy, get_copy t todo, get_set]
    by_cases hk : k ∈ todo
    · simp [hk]
    · by_cases hc : c = k
      · simp [hc]
      · simp [hk, hc, Ne.symm hc]

theorem copy_all (t s : Stats) : t.copy Counter.all s = t :=
  ext_get fun c => by rw [get_copy, if_pos (Counter.mem_all c)]

end Stats

/-! ## The processes -/

/-- Where a process stands: outside its sections, or with these words still to be touched. -/
inductive StatsPc
  | idle
  | resetting
  | clearing (todo : List Counter)
  | reading (todo : List Counter) (clone : Stats)
  | loading
  | storing (shouldReset : UInt64) (todo : List Counter)
  | updated (shouldReset : UInt64)

/-- A process with what it has still to do, its own counters and what it has read. -/
structure StatsProcess where
  todo : List StatsStep
  pc : StatsPc := .idle
  stats : Stats := {}
  shown : List Stats := []

namespace StatsProcess

def inside (p : StatsProcess) : Bool :=
  match p.pc with
  | .idle => false
  | _ => true

def finished (p : StatsProcess) : StatsProcess := { p with todo := p.todo.tail, pc := .idle }

open SpinLock in
def next (p : StatsProcess) : Instr SharedStats StatsProcess :=
  match p.pc with
  | .idle =>
    match p.todo with
    | [] => .stop
    | .count n c :: _ => .work { p.finished with stats := p.stats.add n c }
    | .update :: _ => .take { p with pc := .loading }
    | .reset :: _ => .take { p with pc := .resetting }
    | .read :: _ => .take { p with pc := .reading Counter.all {} }
  -- `reset`
  | .resetting => .access fun m => ({ p with pc := .clearing Counter.all }, { m with shouldReset := 1 })
  | .clearing (c :: todo) =>
    .access fun m => ({ p with pc := .clearing todo }, { m with stats := m.stats.set (({} : Stats).get c) c })
  | .clearing [] => .release p.finished
  -- `read`
  | .reading (c :: todo) clone =>
    .access fun m => ({ p with pc := .reading todo (clone.set (m.stats.get c) c) }, m)
  | .reading [] clone => .release { p.finished with shown := p.shown ++ [clone] }
  -- `update`
  | .loading =>
    .access fun m =>
      ({ p with pc := .storing m.shouldReset (if m.shouldReset = 0 then Counter.all else []) }, m)
  | .storing shouldReset (c :: todo) =>
    .access fun m => ({ p with pc := .storing shouldReset todo }, { m with stats := m.stats.set (p.stats.get c) c })
  | .storing shouldReset [] => .access fun m => ({ p with pc := .updated shouldReset }, { m with shouldReset := 0 })
  | .updated shouldReset => .release { p.finished with stats := if shouldReset ≠ 0 then {} else p.stats }

theorem next_respects (p : StatsProcess) : p.next.Respects inside p.inside := by
  obtain ⟨todo, pc, stats, shown⟩ := p
  cases pc with
  | idle =>
    cases todo with
    | nil => rfl
    | cons s todo => cases s <;> exact ⟨rfl, rfl⟩
  | resetting => exact ⟨rfl, fun m => rfl⟩
  | clearing todo =>
    cases todo with
    | nil => exact ⟨rfl, rfl⟩
    | cons c todo => exact ⟨rfl, fun m => rfl⟩
  | reading todo clone =>
    cases todo with
    | nil => exact ⟨rfl, rfl⟩
    | cons c todo => exact ⟨rfl, fun m => rfl⟩
  | loading => exact ⟨rfl, fun m => rfl⟩
  | storing r todo =>
    cases todo with
    | nil => exact ⟨rfl, fun m => rfl⟩
    | cons c todo => exact ⟨rfl, fun m => rfl⟩
  | updated r => exact ⟨rfl, rfl⟩

def code : SpinLock.Code SharedStats StatsProcess := ⟨next, inside, next_respects⟩

/-! ## A section from its middle -/

/-- What is left of a section, all at once. -/
def finish (x : StatsProcess × SharedStats) : StatsProcess × SharedStats :=
  let p := x.1
  let m := x.2
  match p.pc with
  | .idle => (p, m)
  | .resetting => (p.finished, ⟨{}, 1⟩)
  | .clearing todo => (p.finished, { m with stats := ({} : Stats).copy todo m.stats })
  | .reading todo clone => ({ p.finished with shown := p.shown ++ [m.stats.copy todo clone] }, m)
  | .loading =>
    ({ p.finished with stats := if m.shouldReset ≠ 0 then {} else p.stats },
      ⟨if m.shouldReset = 0 then p.stats else m.stats, 0⟩)
  | .storing r todo =>
    ({ p.finished with stats := if r ≠ 0 then {} else p.stats }, ⟨p.stats.copy todo m.stats, 0⟩)
  | .updated r => ({ p.finished with stats := if r ≠ 0 then {} else p.stats }, m)

/-- One access does not change how the section ends. -/
theorem finish_access {x y : StatsProcess × SharedStats} (h : code.Accesses x y) : finish y = finish x := by
  obtain ⟨⟨todo, pc, stats, shown⟩, m⟩ := x
  obtain ⟨f, hf, rfl⟩ := h
  simp only [code, next] at hf
  cases pc with
  | idle =>
    cases todo with
    | nil => cases hf
    | cons s todo => cases s <;> cases hf
  | resetting =>
    cases hf
    simp [finish, Stats.copy_all, finished]
  | clearing todo =>
    cases todo with
    | nil => cases hf
    | cons c todo =>
      cases hf
      rfl
  | reading todo clone =>
    cases todo with
    | nil => cases hf
    | cons c todo =>
      cases hf
      rfl
  | loading =>
    cases hf
    by_cases hr : m.shouldReset = 0
    · simp [finish, hr, Stats.copy_all, finished]
    · simp [finish, hr, Stats.copy, finished]
  | storing r todo =>
    cases todo with
    | nil =>
      cases hf
      rfl
    | cons c todo =>
      cases hf
      rfl
  | updated r => cases hf

theorem finish_accesses {x y : StatsProcess × SharedStats} (h : Relation.ReflTransGen code.Accesses x y) :
    finish y = finish x := by
  induction h with
  | refl => rfl
  | tail _ hstep ih => rw [finish_access hstep, ih]

theorem finish_release {p p' : StatsProcess} (h : code.next p = .release p') (m : SharedStats) :
    finish (p, m) = (p', m) := by
  obtain ⟨todo, pc, stats, shown⟩ := p
  simp only [code, next] at h
  cases pc with
  | idle =>
    cases todo with
    | nil => cases h
    | cons s todo => cases s <;> cases h
  | resetting => cases h
  | clearing todo =>
    cases todo with
    | nil =>
      cases h
      rfl
    | cons c todo => cases h
  | reading todo clone =>
    cases todo with
    | nil =>
      cases h
      rfl
    | cons c todo => cases h
  | loading => cases h
  | storing r todo => cases todo <;> cases h
  | updated r =>
    cases h
    rfl

/-- **Every section ends as `finish` says.** -/
theorem finish_section {x y : StatsProcess × SharedStats} (h : code.Section x y) : y = finish x := by
  obtain ⟨l, hpath, hrel⟩ := h
  rw [← finish_accesses hpath, finish_release hrel]

end StatsProcess

/-! ## The steps in one piece -/

def StatsStep.ofPipeline : StatsStep → Bool
  | .count _ _ => true
  | .update => true
  | .reset => false
  | .read => false

theorem Demo.step_viewer {s : StatsStep} (hs : s.ofPipeline = false) (m : SharedStats) (stats stats' : Stats) :
    (⟨m, stats⟩ : Demo).step s = (((⟨m, stats'⟩ : Demo).step s).1, ⟨((⟨m, stats'⟩ : Demo).step s).2.shared, stats⟩) := by
  cases s with
  | count n c => cases hs
  | update => cases hs
  | reset => rfl
  | read => rfl

namespace StatsProcess

/-- A process after a whole step of its own that it began with the shared record `m`. -/
def did (p : StatsProcess) (m : SharedStats) (s : StatsStep) : StatsProcess :=
  { p.finished with
    stats := ((⟨m, p.stats⟩ : Demo).step s).2.stats
    shown := p.shown ++ ((⟨m, p.stats⟩ : Demo).step s).1.toList }

variable {P : Type} [DecidableEq P]

omit [DecidableEq P] in
theorem next_idle {p : StatsProcess} (h : p.inside = false) : p.pc = .idle := by
  obtain ⟨todo, pc, stats, shown⟩ := p
  cases pc <;> first | rfl | cases h

theorem atomic_did {a b : SharedStats × (P → StatsProcess)} {p : P} (h : code.Atomic a p b) :
    ∃ s todo, (a.2 p).todo = s :: todo ∧ b.1 = ((⟨a.1, (a.2 p).stats⟩ : Demo).step s).2.shared ∧
      b.2 = Function.update a.2 p ((a.2 p).did a.1 s) := by
  obtain ⟨m, loc⟩ := a
  obtain ⟨⟨todo, pc, stats, shown⟩, hp⟩ : ∃ x, loc p = x := ⟨_, rfl⟩
  have hresp := next_respects (loc p)
  cases h with
  | work l hnext =>
    rw [show (loc p).next = _ from hnext] at hresp
    obtain rfl : pc = .idle := by simpa [hp] using next_idle hresp.1
    simp only [code, next, hp] at hnext ⊢
    cases todo with
    | nil => cases hnext
    | cons s todo =>
      cases s with
      | count n c =>
        cases hnext
        exact ⟨_, todo, rfl, rfl, by simp [did, Demo.step, finished]⟩
      | update => cases hnext
      | reset => cases hnext
      | read => cases hnext
  | sect l l' m' hnext hsect =>
    have hend := finish_section hsect
    rw [show (loc p).next = _ from hnext] at hresp
    obtain rfl : pc = .idle := by simpa [hp] using next_idle hresp.1
    simp only [code, next, hp] at hnext ⊢
    cases todo with
    | nil => cases hnext
    | cons s todo =>
      cases s with
      | count n c => cases hnext
      | update =>
        cases hnext
        obtain ⟨rfl, rfl⟩ := Prod.mk.inj hend
        refine ⟨_, todo, rfl, ?_, ?_⟩
        · by_cases hr : m.shouldReset = 0 <;> simp [Demo.step, SharedStats.update, hr]
        · by_cases hr : m.shouldReset = 0 <;> simp [did, Demo.step, SharedStats.update, finished, hr]
      | reset =>
        cases hnext
        obtain ⟨rfl, rfl⟩ := Prod.mk.inj hend
        exact ⟨_, todo, rfl, rfl, by simp [did, Demo.step, finished]⟩
      | read =>
        cases hnext
        obtain ⟨rfl, rfl⟩ := Prod.mk.inj hend
        exact ⟨_, todo, rfl, rfl, by simp [did, Demo.step, SharedStats.read, finished, Stats.copy_all]⟩

def record (p : StatsProcess) : StatsProcess := { p with pc := .idle }

omit [DecidableEq P] in
theorem record_inj {p q : StatsProcess} (h : p.record = q.record) :
    p.todo = q.todo ∧ p.stats = q.stats ∧ p.shown = q.shown := by
  cases p
  cases q
  simpa [record] using h

omit [DecidableEq P] in
theorem record_access {x y : StatsProcess × SharedStats} (h : code.Accesses x y) : y.1.record = x.1.record := by
  obtain ⟨⟨todo, pc, stats, shown⟩, m⟩ := x
  obtain ⟨f, hf, rfl⟩ := h
  simp only [code, next] at hf
  cases pc with
  | idle =>
    cases todo with
    | nil => cases hf
    | cons s todo => cases s <;> cases hf
  | resetting => cases hf; rfl
  | clearing todo => cases todo <;> cases hf; rfl
  | reading todo clone => cases todo <;> cases hf; rfl
  | loading => cases hf; rfl
  | storing r todo => cases todo <;> cases hf <;> rfl
  | updated r => cases hf

omit [DecidableEq P] in
theorem record_accesses {x y : StatsProcess × SharedStats} (h : Relation.ReflTransGen code.Accesses x y) :
    y.1.record = x.1.record := by
  induction h with
  | refl => rfl
  | tail _ hstep ih => rw [record_access hstep, ih]

omit [DecidableEq P] in
theorem record_take {p l : StatsProcess} (h : code.next p = .take l) : l.record = p.record := by
  have hresp := next_respects p
  rw [show p.next = _ from h] at hresp
  have hidle := next_idle hresp.1
  obtain ⟨todo, pc, stats, shown⟩ := p
  cases hidle
  simp only [code, next] at h
  cases todo with
  | nil => cases h
  | cons s todo => cases s <;> cases h <;> rfl

omit [DecidableEq P] in
theorem follows_record {a : SharedStats × (P → StatsProcess)} {s : SpinLock.Machine P SharedStats StatsProcess}
    (h : code.Follows a s) (p : P) : (s.loc p).record = (a.2 p).record := by
  cases h with
  | free hlock hmem hloc hout => rw [hloc]
  | held h l hlock hout hin htake hsince hothers =>
    by_cases hp : p = h
    · subst hp
      exact (record_accesses hsince).trans (record_take htake)
    · rw [hothers p hp]

end StatsProcess

/-! ## The order of the sections -/

namespace Demo

variable {V : Type} [DecidableEq V]

/-- What the steps of `done`, in this order, show to process `p`. -/
def shownTo (p : Option V) : Demo → List (Option V × StatsStep) → List Stats
  | _, [] => []
  | d, x :: done => (if x.1 = p then (d.step x.2).1.toList else []) ++ shownTo p (d.step x.2).2 done

theorem shownTo_append (p : Option V) (x : Option V × StatsStep) : ∀ (d : Demo) (done : List (Option V × StatsStep)),
    shownTo p d (done ++ [x]) =
      shownTo p d done ++ if x.1 = p then ((d.after (done.map Prod.snd)).step x.2).1.toList else []
  | d, [] => by simp [shownTo, after]
  | d, y :: done => by
    rw [List.cons_append, shownTo, shownTo_append p x _ done, shownTo, List.append_assoc]
    rfl

/-- `done` is an order of the steps done so far: each process did its own in its own order, and each was shown what the
steps in this order, each in one piece, show. -/
structure Ordered (script : Option V → List StatsStep) (d : Demo) (done : List (Option V × StatsStep))
    (a : SharedStats × (Option V → StatsProcess)) : Prop where
  mem : a.1 = (d.after (done.map Prod.snd)).shared
  stats : (a.2 none).stats = (d.after (done.map Prod.snd)).stats
  todo : ∀ p, script p = (done.filter fun x => x.1 = p).map Prod.snd ++ (a.2 p).todo
  shown : ∀ p, (a.2 p).shown = shownTo p d done

theorem Ordered.step {script : Option V → List StatsStep} {d : Demo} {done : List (Option V × StatsStep)}
    {a b : SharedStats × (Option V → StatsProcess)} {p : Option V}
    (hscript : ∀ p, ∀ s ∈ script p, s.ofPipeline = p.isNone) (h : Ordered script d done a)
    (hstep : StatsProcess.code.Atomic a p b) : ∃ s, Ordered script d (done ++ [(p, s)]) b := by
  obtain ⟨s, todo, htodo, hmem, hloc⟩ := StatsProcess.atomic_did hstep
  have hs : s.ofPipeline = p.isNone := hscript p s (by rw [h.todo p, htodo]; simp)
  have hafter : d.after ((done ++ [(p, s)]).map Prod.snd) = ((d.after (done.map Prod.snd)).step s).2 := by
    rw [List.map_append, List.map_singleton, after_append]
  have hnow : d.after (done.map Prod.snd) = ⟨a.1, (a.2 none).stats⟩ := by rw [h.mem, h.stats]
  -- a viewer's own counters play no part, so its step is the step of the record and the pipeline's counters
  have hviewer : ∀ v, p = some v → (⟨a.1, (a.2 p).stats⟩ : Demo).step s =
      (((d.after (done.map Prod.snd)).step s).1,
        ⟨((d.after (done.map Prod.snd)).step s).2.shared, (a.2 p).stats⟩) := by
    intro v hv
    rw [hv] at hs
    rw [hnow]
    exact step_viewer hs _ _ _
  have hshown : ((⟨a.1, (a.2 p).stats⟩ : Demo).step s).1 = ((d.after (done.map Prod.snd)).step s).1 := by
    cases hp : p with
    | none => rw [hnow]
    | some v => rw [← hp, hviewer v hp]
  refine ⟨s, ?_, ?_, fun q => ?_, fun q => ?_⟩
  · rw [hafter, hmem]
    cases hp : p with
    | none => rw [hnow]
    | some v => rw [← hp, hviewer v hp]
  · rw [hafter, hloc]
    cases hp : p with
    | none => simp [StatsProcess.did, hnow]
    | some v =>
      rw [hp] at hs
      rw [Function.update_of_ne (by simp), hnow, step_viewer hs a.1 _ (a.2 none).stats]
  · rw [h.todo q, List.filter_append, List.map_append, List.append_assoc, hloc]
    by_cases hq : q = p
    · subst hq
      simp [StatsProcess.did, StatsProcess.finished, htodo]
    · simp [hq, Ne.symm hq]
  · rw [shownTo_append, hloc, ← h.shown q]
    by_cases hq : q = p
    · subst hq
      simp [StatsProcess.did, hshown]
    · simp [hq, Ne.symm hq]

theorem Ordered.run {script : Option V → List StatsStep} {d : Demo}
    (hscript : ∀ p, ∀ s ∈ script p, s.ofPipeline = p.isNone) {a b : SharedStats × (Option V → StatsProcess)}
    {ps : List (Option V)} (hrun : StatsProcess.code.AtomicRun a ps b) : ∀ {done : List (Option V × StatsStep)},
    Ordered script d done a → ∃ done', done'.map Prod.fst = ps ∧ Ordered script d (done ++ done') b := by
  induction hrun with
  | nil a => exact fun h => ⟨[], rfl, by simpa using h⟩
  | @cons _ _ _ p _ hstep _ ih =>
    intro done h
    obtain ⟨s, hs⟩ := h.step hscript hstep
    obtain ⟨done', hfst, hdone'⟩ := ih hs
    exact ⟨(p, s) :: done', by rw [List.map_cons, hfst], by simpa using hdone'⟩

def start (script : Option V → List StatsStep) (d : Demo) : SpinLock.Machine (Option V) SharedStats StatsProcess :=
  ⟨0, d.shared, fun p => { todo := script p, stats := if p = none then d.stats else {} }⟩

theorem follows_run (script : Option V → List StatsStep) (d : Demo) (schedule : List (Option V)) :
    ∃ ps a, ps.Sublist schedule ∧
      StatsProcess.code.AtomicRun (d.shared, (start script d).loc) ps a ∧
      StatsProcess.code.Follows a (StatsProcess.code.run (start script d) schedule) :=
  SpinLock.Code.Follows.run schedule (SpinLock.Code.follows_start d.shared (start script d).loc fun _ => rfl)

/-- **The sections are atomic**: whatever the interleaving of the single accesses, there is one order of the steps done
so far, keeping each process's own order, in which they happen one after another.  What every viewer has read, the
pipeline's counters and, whenever the lock is free, the shared record are as after this order. -/
theorem sharedStats_sections_atomic (script : Option V → List StatsStep)
    (hscript : ∀ p, ∀ s ∈ script p, s.ofPipeline = p.isNone) (d : Demo) (schedule : List (Option V)) :
    ∃ done : List (Option V × StatsStep), (done.map Prod.fst).Sublist schedule ∧
      (∀ p, script p = (done.filter fun x => x.1 = p).map Prod.snd ++
        ((StatsProcess.code.run (start script d) schedule).loc p).todo) ∧
      (∀ p, ((StatsProcess.code.run (start script d) schedule).loc p).shown = shownTo p d done) ∧
      ((StatsProcess.code.run (start script d) schedule).loc none).stats = (d.after (done.map Prod.snd)).stats ∧
      ((StatsProcess.code.run (start script d) schedule).lock = 0 →
        (StatsProcess.code.run (start script d) schedule).mem = (d.after (done.map Prod.snd)).shared) := by
  obtain ⟨ps, a, hsub, hrun, hfollows⟩ := follows_run script d schedule
  have hstart : Ordered script d [] (d.shared, (start script d).loc) :=
    ⟨rfl, by simp [start, after], fun p => by simp [start], fun p => by simp [start, shownTo]⟩
  obtain ⟨done, hfst, hdone⟩ := Ordered.run hscript hrun hstart
  rw [List.nil_append] at hdone
  have hrec := fun p => StatsProcess.record_inj (StatsProcess.follows_record hfollows p)
  refine ⟨done, hfst ▸ hsub, fun p => ?_, fun p => ?_, ?_, fun hlock => ?_⟩
  · rw [hdone.todo p, (hrec p).1]
  · rw [← hdone.shown p, (hrec p).2.2]
  · rw [← hdone.stats, (hrec none).2.1]
  · cases hfollows with
    | free _ hmem => rw [hmem, hdone.mem]
    | held _ _ hheld =>
      rw [hlock] at hheld
      cases hheld

/-- The pipeline and a viewer in turns: the viewer takes the lock first and reads zeros while the pipeline spins. -/
theorem sharedStats_sections_atomic_turns :
    ∃ script : Option Unit → List StatsStep,
      script none = [.count 2 .totalPackets, .update] ∧ script (some ()) = [.read] ∧
      (∀ p, ∀ s ∈ script p, s.ofPipeline = p.isNone) ∧
      ((StatsProcess.code.run (start script {}) (List.replicate 40 [none, some ()]).flatten).loc (some ())).shown.map
        (fun s => s.totalPackets) = [0] ∧
      (StatsProcess.code.run (start script {}) (List.replicate 40 [none, some ()]).flatten).mem.stats.totalPackets = 2 ∧
      ∃ done : List (Option Unit × StatsStep),
        ((StatsProcess.code.run (start script {}) (List.replicate 40 [none, some ()]).flatten).loc (some ())).shown =
          shownTo (some ()) {} done ∧
        ∀ p, script p = (done.filter fun x => x.1 = p).map Prod.snd ++
          ((StatsProcess.code.run (start script {}) (List.replicate 40 [none, some ()]).flatten).loc p).todo := by
  have hscript : ∀ p : Option Unit, ∀ s ∈ (if p = none then [.count 2 .totalPackets, .update] else [.read]),
      StatsStep.ofPipeline s = p.isNone := by
    intro p s hs
    cases p with
    | none =>
      simp only [if_true, List.mem_cons, List.not_mem_nil, or_false] at hs
      rcases hs with rfl | rfl <;> rfl
    | some v =>
      simp only [reduceCtorEq, if_false, List.mem_singleton] at hs
      subst hs
      rfl
  refine ⟨fun p => if p = none then [.count 2 .totalPackets, .update] else [.read], rfl, rfl, hscript, by decide +kernel,
    by decide +kernel, ?_⟩
  obtain ⟨done, -, htodo, hshown, -⟩ := sharedStats_sections_atomic _ hscript {} (List.replicate 40 [none, some ()]).flatten
  exact ⟨done, hshown (some ()), htodo⟩

/-- **The lock**: its word is 1 exactly while a process is inside a section, no two processes are inside at once, and
whoever comes to release the lock succeeds at the first try. -/
theorem sharedStats_one_inside (script : Option V → List StatsStep) (d : Demo) (schedule : List (Option V)) :
    ((StatsProcess.code.run (start script d) schedule).lock = 0 ∧
        (∀ p, ((StatsProcess.code.run (start script d) schedule).loc p).inside = false) ∨
      (StatsProcess.code.run (start script d) schedule).lock = 1 ∧
        ∃ p, ∀ q, ((StatsProcess.code.run (start script d) schedule).loc q).inside = true ↔ q = p) ∧
    ∀ p l, ((StatsProcess.code.run (start script d) schedule).loc p).next = .release l →
      (StatsProcess.code.run (start script d) (schedule ++ [p])).lock = 0 ∧
      (StatsProcess.code.run (start script d) (schedule ++ [p])).loc p = l := by
  obtain ⟨-, a, -, -, hfollows⟩ := follows_run script d schedule
  generalize hs : StatsProcess.code.run (start script d) schedule = s at hfollows ⊢
  constructor
  · cases hfollows with
    | free hlock hmem hloc hout => exact Or.inl ⟨hlock, fun p => by rw [hloc]; exact hout p⟩
    | held h l hlock hout hin htake hsince hothers =>
      refine Or.inr ⟨hlock, h, fun q => ⟨fun hq => ?_, fun hq => hq ▸ hin⟩⟩
      by_contra hne
      rw [hothers q hne] at hq
      exact absurd ((hout q).symm.trans hq) (by decide)
  · intro p l hl
    have hresp := StatsProcess.next_respects (s.loc p)
    rw [hl] at hresp
    have hlock := (hfollows.exclusive hresp.1 hresp.1).2
    have hrun : StatsProcess.code.run (start script d) (schedule ++ [p]) = StatsProcess.code.step s p := by
      unfold SpinLock.Code.run at hs ⊢
      rw [List.foldl_append, hs]
      rfl
    have hstep : StatsProcess.code.step s p = { s with lock := 0, loc := Function.update s.loc p l } := by
      simp only [SpinLock.Code.step, show StatsProcess.code.next (s.loc p) = .release l from hl, hlock, if_true]
    rw [hrun, hstep]
    exact ⟨rfl, Function.update_self ..⟩

end Demo

/-! ## Every call returns -/

namespace StatsProcess

def cost : StatsStep → Nat
  | .count _ _ => 1
  | .update => 19
  | .reset => 18
  | .read => 17

def ahead (p : StatsProcess) : Nat :=
  match p.pc with
  | .idle => (p.todo.map cost).sum
  | .resetting => 17 + (p.todo.tail.map cost).sum
  | .clearing todo => todo.length + 1 + (p.todo.tail.map cost).sum
  | .reading todo _ => todo.length + 1 + (p.todo.tail.map cost).sum
  | .loading => 18 + (p.todo.tail.map cost).sum
  | .storing _ todo => todo.length + 2 + (p.todo.tail.map cost).sum
  | .updated _ => 1 + (p.todo.tail.map cost).sum

theorem code_lowers : code.Lowers ahead := by
  rintro ⟨todo, pc, stats, shown⟩
  simp only [code, next]
  cases pc with
  | idle =>
    cases todo with
    | nil => trivial
    | cons s todo => cases s <;> simp [ahead, finished, cost, Counter.all]
  | resetting => simp [ahead, Counter.all]
  | clearing words => cases words <;> simp [ahead, finished]
  | reading words clone => cases words <;> simp [ahead, finished]
  | loading =>
    intro m
    by_cases hr : m.shouldReset = 0 <;> simp [ahead, hr, Counter.all]
  | storing r words => cases words <;> simp [ahead]
  | updated r => simp [ahead, finished]

theorem cost_sum_le (todo : List StatsStep) : (todo.map cost).sum ≤ 19 * todo.length := by
  induction todo with
  | nil => rfl
  | cons s todo ih =>
    have : cost s ≤ 19 := by cases s <;> simp [cost]
    simp only [List.map_cons, List.sum_cons, List.length_cons]
    omega

theorem next_stop {p : StatsProcess} (h : code.next p = .stop) : p.inside = false ∧ p.todo = [] := by
  have hresp := next_respects p
  rw [show p.next = _ from h] at hresp
  have hidle := next_idle hresp
  obtain ⟨todo, pc, stats, shown⟩ := p
  cases hidle
  cases todo with
  | nil => exact ⟨rfl, rfl⟩
  | cons s todo => cases s <;> cases h

end StatsProcess

namespace Demo

variable {V : Type} [DecidableEq V] [Fintype V]

/-- **Every call returns**: where each round gives every process a step, in any order, more than nineteen rounds for each
step there is to do see all of them done and the lock free. -/
theorem sharedStats_all_finish (script : Option V → List StatsStep) (d : Demo) (rounds : List (List (Option V)))
    (hrounds : ∀ round ∈ rounds, ∀ p, p ∈ round) (hmany : 19 * ∑ p, (script p).length < rounds.length) :
    (StatsProcess.code.run (start script d) rounds.flatten).lock = 0 ∧
      ∀ p, ((StatsProcess.code.run (start script d) rounds.flatten).loc p).inside = false ∧
        ((StatsProcess.code.run (start script d) rounds.flatten).loc p).todo = [] := by
  have hleft : SpinLock.Code.left StatsProcess.ahead (start script d) < rounds.length := by
    refine lt_of_le_of_lt ?_ hmany
    rw [Finset.mul_sum]
    exact Finset.sum_le_sum fun p _ => StatsProcess.cost_sum_le (script p)
  have hstart := SpinLock.Code.follows_start (C := StatsProcess.code) d.shared (start script d).loc fun _ => rfl
  have hstop := SpinLock.Code.Follows.finishes StatsProcess.code_lowers rounds hstart hrounds hleft
  obtain ⟨-, a, -, -, hfollows⟩ := follows_run script d rounds.flatten
  refine ⟨?_, fun p => StatsProcess.next_stop (hstop p)⟩
  cases hfollows with
  | free hlock => exact hlock
  | held h l _ _ hin =>
    exact absurd (hin.symm.trans (StatsProcess.next_stop (hstop h)).1) (by decide)

/-- The pipeline counts and updates, a viewer resets and reads, in turns. -/
theorem sharedStats_all_finish_turns :
    ∃ script : Option Unit → List StatsStep,
      script none = [.count 2 .totalPackets, .update] ∧ script (some ()) = [.reset, .read] ∧
      19 * ∑ p, (script p).length < 77 ∧
      (StatsProcess.code.run (start script {}) (List.replicate 77 [none, some ()]).flatten).lock = 0 ∧
      ∀ p, ((StatsProcess.code.run (start script {}) (List.replicate 77 [none, some ()]).flatten).loc p).todo = [] := by
  refine ⟨fun p => if p = none then [.count 2 .totalPackets, .update] else [.reset, .read], rfl, rfl, ?_, ?_⟩
  · simp [Fintype.sum_option]
  · obtain ⟨hlock, hall⟩ := sharedStats_all_finish (V := Unit)
      (fun p => if p = none then [.count 2 .totalPackets, .update] else [.reset, .read]) {}
      (List.replicate 77 [none, some ()])
      (by intro round hround p; rw [List.eq_of_mem_replicate hround]; cases p <;> simp)
      (by simp [Fintype.sum_option])
    exact ⟨hlock, fun p => (hall p).2⟩

end Demo

end Qos
