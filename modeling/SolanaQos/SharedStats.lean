import SolanaQos.Process
/-!
# The statistics handshake of the demo build (`common/src/shared_stats.rs`, `qos/src/main.rs`)

The viewer asks for a reset through a flag in shared memory; the pipeline keeps its own counters and publishes them.
An update that meets the flag publishes nothing, lowers the flag and tells the pipeline to start over.  Every critical
section is one step, and the steps of the two processes interleave in any order; `StatsLock` takes the sections apart.

What a viewer reads depends on the last reset.  `Answered` says what the steps since then left: the reset is still
unanswered, and the record shows zeros; or it was answered by the first update behind it: the counters of the pipeline
are what it counted since, and the record shows zeros or what it had counted up to a later update.  `Behind` bounds
what is read between two resets by what was counted, and a step that is no reset only raises it.

The counters are natural numbers here.  The theorem is about every interleaving and every number of resets
(`sharedStats_handshake`); increments that were counted between a reset and its answer are lost to the viewer by
design.
-/
namespace Qos

inductive Counter
  | totalPackets
  | nonIpv4
  | nonTransactionPacket
  | recentlyProcessed
  | recentlyProcessedQueued
  | recentSignaturesReceived
  | invalidMetaSize
  | failedSanitize
  | failedView
  | invalidPacketData
  | leakedPriority
  | duplicatePackets
  | bankingTransmissions
  | zeroScore
  | completed
  deriving DecidableEq

namespace Stats

def get (s : Stats) : Counter → Nat
  | .totalPackets => s.totalPackets
  | .nonIpv4 => s.nonIpv4
  | .nonTransactionPacket => s.nonTransactionPacket
  | .recentlyProcessed => s.recentlyProcessed
  | .recentlyProcessedQueued => s.recentlyProcessedQueued
  | .recentSignaturesReceived => s.recentSignaturesReceived
  | .invalidMetaSize => s.invalidMetaSize
  | .failedSanitize => s.failedSanitize
  | .failedView => s.failedView
  | .invalidPacketData => s.invalidPacketData
  | .leakedPriority => s.leakedPriority
  | .duplicatePackets => s.duplicatePackets
  | .bankingTransmissions => s.bankingTransmissions
  | .zeroScore => s.zeroScore
  | .completed => s.completed

def add (s : Stats) (n : Nat) : Counter → Stats
  | .totalPackets => { s with totalPackets := s.totalPackets + n }
  | .nonIpv4 => { s with nonIpv4 := s.nonIpv4 + n }
  | .nonTransactionPacket => { s with nonTransactionPacket := s.nonTransactionPacket + n }
  | .recentlyProcessed => { s with recentlyProcessed := s.recentlyProcessed + n }
  | .recentlyProcessedQueued => { s with recentlyProcessedQueued := s.recentlyProcessedQueued + n }
  | .recentSignaturesReceived => { s with recentSignaturesReceived := s.recentSignaturesReceived + n }
  | .invalidMetaSize => { s with invalidMetaSize := s.invalidMetaSize + n }
  | .failedSanitize => { s with failedSanitize := s.failedSanitize + n }
  | .failedView => { s with failedView := s.failedView + n }
  | .invalidPacketData => { s with invalidPacketData := s.invalidPacketData + n }
  | .leakedPriority => { s with leakedPriority := s.leakedPriority + n }
  | .duplicatePackets => { s with duplicatePackets := s.duplicatePackets + n }
  | .bankingTransmissions => { s with bankingTransmissions := s.bankingTransmissions + n }
  | .zeroScore => { s with zeroScore := s.zeroScore + n }
  | .completed => { s with completed := s.completed + n }

@[simp] theorem get_default (c : Counter) : ({} : Stats).get c = 0 := by cases c <;> rfl

theorem get_add (s : Stats) (n : Nat) (c k : Counter) : (s.add n c).get k = s.get k + if c = k then n else 0 := by
  by_cases h : c = k
  · subst h
    rw [if_pos rfl]
    cases c <;> rfl
  · rw [if_neg h, Nat.add_zero]
    cases c <;> cases k <;> first | rfl | exact absurd rfl h

end Stats

/-! ## The shared record -/

/-- Without its lock: a critical section is one step here. -/
structure SharedStats where
  stats : Stats := {}
  shouldReset : UInt64 := 0

namespace SharedStats

def reset (s : SharedStats) : SharedStats := { s with shouldReset := 1, stats := {} }

def read (s : SharedStats) : Stats := s.stats

def update (s : SharedStats) (stats : Stats) : Bool × SharedStats :=
  let shouldReset := s.shouldReset
  let s := if shouldReset = 0 then { s with stats := stats } else s
  (decide (shouldReset ≠ 0), { s with shouldReset := 0 })

end SharedStats

structure Demo where
  shared : SharedStats := {}
  stats : Stats := {}

/-- A step of the pipeline (`count`, `update`) or of the viewer (`reset`, `read`). -/
inductive StatsStep
  | count (n : Nat) (c : Counter)
  | update
  | reset
  | read
  deriving DecidableEq

namespace Demo

def step (d : Demo) : StatsStep → Option Stats × Demo
  | .count n c => (none, { d with stats := d.stats.add n c })
  | .update =>
    let r := d.shared.update d.stats
    (none, ⟨r.2, if r.1 then {} else d.stats⟩)
  | .reset => (none, { d with shared := d.shared.reset })
  | .read => (some d.shared.read, d)

def after (d : Demo) (steps : List StatsStep) : Demo := steps.foldl (fun d s => (d.step s).2) d

end Demo

def counted (k : Counter) (steps : List StatsStep) : Nat :=
  (steps.map fun
    | .count n c => if c = k then n else 0
    | _ => 0).sum

theorem counted_append (k : Counter) (steps steps' : List StatsStep) :
    counted k (steps ++ steps') = counted k steps + counted k steps' := by
  unfold counted
  rw [List.map_append, List.sum_append]

namespace Demo

theorem after_append (d : Demo) (steps : List StatsStep) (s : StatsStep) :
    d.after (steps ++ [s]) = ((d.after steps).step s).2 := by
  unfold after
  rw [List.foldl_append]
  rfl

theorem step_update (d : Demo) :
    (d.shared.shouldReset = 0 ∧ (d.step .update).2 = ⟨⟨d.stats, 0⟩, d.stats⟩) ∨
      (d.shared.shouldReset ≠ 0 ∧ (d.step .update).2 = ⟨⟨d.shared.stats, 0⟩, {}⟩) := by
  unfold step SharedStats.update
  by_cases h : d.shared.shouldReset = 0
  · exact Or.inl ⟨h, by simp [h]⟩
  · exact Or.inr ⟨h, by simp [h]⟩

/-! ## After a reset -/

/-- What the steps since a reset left: the reset is still unanswered, or it was answered by the first update, the
pipeline has counted from there, and what is published was counted up to some later update. -/
inductive Answered (mid : List StatsStep) (d : Demo) : Prop
  | pending (hnone : StatsStep.update ∉ mid) (hflag : d.shared.shouldReset ≠ 0) (hshared : d.shared.stats = {})
  | counting (before since : List StatsStep) (hmid : mid = before ++ .update :: since)
      (hfirst : StatsStep.update ∉ before) (hflag : d.shared.shouldReset = 0)
      (hlocal : ∀ k, d.stats.get k = counted k since)
      (hshared : d.shared.stats = {} ∨ ∃ published rest, since = published ++ .update :: rest ∧
        ∀ k, d.shared.stats.get k = counted k published)

theorem Answered.step {mid : List StatsStep} {d : Demo} (h : Answered mid d) {s : StatsStep} (hs : s ≠ .reset) :
    Answered (mid ++ [s]) (d.step s).2 := by
  cases h with
  | pending hnone hflag hshared =>
    cases s with
    | count n c => exact .pending (by simpa using hnone) hflag hshared
    | update =>
      rcases d.step_update with ⟨hzero, -⟩ | ⟨-, he⟩
      · exact absurd hzero hflag
      · rw [he]
        refine .counting mid [] rfl hnone rfl (fun k => ?_) (Or.inl hshared)
        rw [Stats.get_default]
        rfl
    | reset => exact absurd rfl hs
    | read => exact .pending (by simpa using hnone) hflag hshared
  | counting before since hmid hfirst hflag hlocal hshared =>
    have hmid' : mid ++ [s] = before ++ .update :: (since ++ [s]) := by rw [hmid]; simp
    have hshared' : d.shared.stats = {} ∨ ∃ published rest, since ++ [s] = published ++ .update :: rest ∧
        ∀ k, d.shared.stats.get k = counted k published := by
      rcases hshared with he | ⟨published, rest, rfl, hget⟩
      · exact Or.inl he
      · exact Or.inr ⟨published, rest ++ [s], by simp, hget⟩
    cases s with
    | count n c =>
      refine .counting before _ hmid' hfirst hflag (fun k => ?_) hshared'
      rw [counted_append, ← hlocal]
      show (d.stats.add n c).get k = _
      rw [Stats.get_add]
      simp [counted]
    | update =>
      rcases d.step_update with ⟨-, he⟩ | ⟨hne, -⟩
      · rw [he]
        refine .counting before _ hmid' hfirst rfl (fun k => ?_) (Or.inr ⟨since, [], rfl, hlocal⟩)
        rw [counted_append, ← hlocal]
        rfl
      · exact absurd hflag hne
    | reset => exact absurd rfl hs
    | read =>
      refine .counting before _ hmid' hfirst hflag (fun k => ?_) hshared'
      rw [counted_append, ← hlocal]
      rfl

theorem answered_after (d : Demo) (pre mid : List StatsStep) (hmid : StatsStep.reset ∉ mid) :
    Answered mid (d.after (pre ++ .reset :: mid)) := by
  induction mid using List.reverseRecOn with
  | nil =>
    rw [after_append]
    exact .pending (by simp) (show (1 : UInt64) ≠ 0 by decide) rfl
  | append_singleton mid s ih =>
    rw [List.mem_append, not_or, List.mem_singleton] at hmid
    rw [← List.cons_append, ← List.append_assoc, after_append]
    exact (ih hmid.1).step (Ne.symm hmid.2)

/-! ## Between two resets -/

/-- An unanswered reset shows zeros; else what is published is not ahead of the pipeline. -/
structure Behind (d : Demo) : Prop where
  pending : d.shared.shouldReset ≠ 0 → d.shared.stats = {}
  published : d.shared.shouldReset = 0 → ∀ k, d.shared.stats.get k ≤ d.stats.get k

theorem Behind.step {d : Demo} (h : Behind d) (s : StatsStep) : Behind (d.step s).2 := by
  cases s with
  | count n c =>
    refine ⟨h.pending, fun hz k => le_trans (h.published hz k) ?_⟩
    show _ ≤ (d.stats.add n c).get k
    rw [Stats.get_add]
    omega
  | update =>
    rcases d.step_update with ⟨-, he⟩ | ⟨hne, he⟩
    · rw [he]
      exact ⟨fun hz => absurd rfl hz, fun _ k => le_refl _⟩
    · rw [he]
      refine ⟨fun hz => absurd rfl hz, fun _ k => ?_⟩
      rw [h.pending hne]
  | reset => exact ⟨fun _ => rfl, fun hz => absurd hz (show (1 : UInt64) ≠ 0 by decide)⟩
  | read => exact h

theorem Behind.raises {d : Demo} (h : Behind d) {s : StatsStep} (hs : s ≠ .reset) (k : Counter) :
    d.shared.read.get k ≤ (d.step s).2.shared.read.get k := by
  cases s with
  | count n c => exact le_refl _
  | update =>
    rcases d.step_update with ⟨hz, he⟩ | ⟨-, he⟩
    · rw [he]
      exact h.published hz k
    · rw [he]
      exact le_refl _
  | reset => exact absurd rfl hs
  | read => exact le_refl _

theorem behind_after (stats : Stats) (pre : List StatsStep) : Behind (after ⟨{}, stats⟩ pre) := by
  induction pre using List.reverseRecOn with
  | nil =>
    refine ⟨fun _ => rfl, fun _ k => ?_⟩
    show ({} : Stats).get k ≤ _
    rw [Stats.get_default]
    exact Nat.zero_le _
  | append_singleton pre s ih =>
    rw [after_append]
    exact ih.step s

theorem raises_after (stats : Stats) (pre mid : List StatsStep) (hmid : StatsStep.reset ∉ mid) (k : Counter) :
    (after ⟨{}, stats⟩ pre).shared.read.get k ≤ (after ⟨{}, stats⟩ (pre ++ mid)).shared.read.get k := by
  induction mid using List.reverseRecOn with
  | nil => rw [List.append_nil]
  | append_singleton mid s ih =>
    rw [List.mem_append, not_or, List.mem_singleton] at hmid
    rw [← List.append_assoc, after_append]
    exact le_trans (ih hmid.1) ((behind_after stats _).raises (Ne.symm hmid.2) k)

/-- **The handshake**, over every interleaving.  A read after a reset shows zeros or what was counted between the first
update since the reset and a later one; between two resets the reads of a counter never fall. -/
theorem sharedStats_handshake (stats : Stats) (pre mid : List StatsStep) (hmid : StatsStep.reset ∉ mid) :
    (∃ shown, ((after ⟨{}, stats⟩ (pre ++ .reset :: mid)).step .read).1 = some shown ∧
      (shown = {} ∨ ∃ before counting rest, mid = before ++ .update :: (counting ++ .update :: rest) ∧
        StatsStep.update ∉ before ∧ ∀ k, shown.get k = counted k counting)) ∧
    ∃ shown shown', ((after ⟨{}, stats⟩ pre).step .read).1 = some shown ∧
      ((after ⟨{}, stats⟩ (pre ++ .read :: mid)).step .read).1 = some shown' ∧ ∀ k, shown.get k ≤ shown'.get k := by
  constructor
  · refine ⟨_, rfl, ?_⟩
    cases answered_after ⟨{}, stats⟩ pre mid hmid with
    | pending hnone hflag hshared => exact Or.inl hshared
    | counting before since hsince hfirst hflag hlocal hshared =>
      rcases hshared with he | ⟨published, rest, rfl, hget⟩
      · exact Or.inl he
      · exact Or.inr ⟨before, published, rest, hsince, hfirst, hget⟩
  · exact ⟨_, _, rfl, rfl, raises_after stats pre (.read :: mid) (by simpa using hmid)⟩

/-- Two packets counted before the reset, one before its answer and three after it: the viewer reads three. -/
theorem sharedStats_handshake_three :
    StatsStep.reset ∉ [StatsStep.count 1 .totalPackets, .update, .count 3 .totalPackets, .update] ∧
      (after {} ([.count 2 .totalPackets, .update] ++ .reset ::
        [.count 1 .totalPackets, .update, .count 3 .totalPackets, .update])).shared.read.totalPackets = 3 ∧
      ∃ shown shown', ((after {} [.count 2 .totalPackets, .update]).step .read).1 = some shown ∧
        ((after {} ([.count 2 .totalPackets, .update] ++ .read ::
          [.count 1 .totalPackets, .update, .count 3 .totalPackets, .update])).step .read).1 = some shown' ∧
        ∀ k, shown.get k ≤ shown'.get k := by
  have hmid : StatsStep.reset ∉ [StatsStep.count 1 .totalPackets, .update, .count 3 .totalPackets, .update] := by decide
  have hreads := (sharedStats_handshake {} [.count 2 .totalPackets, .update] _ hmid).2
  refine ⟨hmid, ?_, hreads⟩
  decide

end Demo

end Qos
