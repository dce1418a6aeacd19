import SolanaQos.MockBanking
import SolanaQos.Mpsc
/-!
# The funnel (`Engine::funnel_into_ipc` in `engine/src/lib.rs`)

Each generator thread pushes to a channel of its own, and one thread pops from all of them and pushes what it finds to
the channel that qos reads.  A pass makes sixteen pops and then adds what it sent to the shared counters.  The senders
push whenever they like, also between two pops of a pass, and never wait: a channel may drop what was not popped in
time (`LappedQue`).  There is one sender for each channel, and the channels start empty.

What became of the messages is read off the history: `sentBy`, `lostBy` and, among what was pushed on, `fromChannel`.
`Merges` says that the funnel's output is an interleaving of what it popped from each channel, and that for each
generator the messages funnelled and those unread stand in the order in which they were pushed, the rest being lost
(`Accounted`).  A push loses from the front of its channel at most (`Merges.push`); a pop moves the front of one
channel behind the output (`Merges.pop`).

While nobody pushes, the pops take from the channels as if they stood one behind the other, the first channels first
(`Merges.pops`): the scan starts at the first channel whenever it finds something there.  So enough passes leave every
channel empty (`funnel_drains`).

The shared counters are natural numbers here, where the source's wrap.  The consumer's heartbeat, with which the loop
starts and stops, is left out: a run is what the loop does in between.
-/
namespace Qos

open Runs

variable {T : Type}

/-- **A channel with its sender**: a message goes behind the unread ones, and the front of them may be lost to it. -/
structure LappedQue (T : Type) extends QueCrate T where
  push : Consumer → T → Consumer
  push_unread : ∀ c x, ∃ k, unread (push c x) = (unread c ++ [x]).drop k

def pairQue (T : Type) : LappedQue T where
  toQueCrate := listQue T
  push := fun (l : List T) x => (l ++ [x]).drop (l.length - 1)
  push_unread := fun (l : List T) _ => ⟨l.length - 1, rfl⟩

variable {que : LappedQue T}

structure Engine (que : LappedQue T) where
  consumer : Mpsc.Consumer que.toQueCrate
  spsc : List T := []
  -- the pops of the pass so far, and how many of them found something
  pops : Nat := 0
  sends : Nat := 0
  stats : EngineStats := {}

inductive FunnelStep (T : Type)
  | push (i : Nat) (x : T)
  | pop

inductive FunnelEvent (T : Type)
  -- with the number of messages that the push cost
  | pushed (i : Nat) (x : T) (lost : Nat)
  | popped (x : Option T)
  | nobody

namespace Engine

def push (e : Engine que) (i : Nat) (x : T) : FunnelEvent T × Engine que :=
  match e.consumer.consumers[i]? with
  | none => (.nobody, e)
  | some channel =>
    let channel' := que.push channel x
    (.pushed i x ((que.unread channel).length + 1 - (que.unread channel').length),
      { e with consumer := { e.consumer with consumers := e.consumer.consumers.set i channel' } })

/-- A pop of the funnel; the sixteenth ends the pass. -/
def pop (fwd : Bool) (e : Engine que) : Except Panic (FunnelEvent T × Engine que) := do
  let (opt, consumer) ← e.consumer.pop
  let e := { e with
    consumer := consumer
    spsc := e.spsc ++ opt.toList
    pops := e.pops + 1
    sends := e.sends + opt.toList.length }
  if e.pops = 16 then
    let stats :=
      if fwd then { e.stats with fwdSends := e.stats.fwdSends + e.sends }
      else { e.stats with tpuSends := e.stats.tpuSends + e.sends }
    return (.popped opt, { e with pops := 0, sends := 0, stats := stats })
  else
    return (.popped opt, e)

def step (fwd : Bool) (e : Engine que) : FunnelStep T → Except Panic (FunnelEvent T × Engine que)
  | .push i x => return e.push i x
  | .pop => e.pop fwd

end Engine

/-! ## Histories -/

def sentBy (i : Nat) (h : List (FunnelEvent T)) : List T :=
  h.filterMap fun
    | .pushed j x _ => if j = i then some x else none
    | _ => none

def lostBy (i : Nat) (h : List (FunnelEvent T)) : Nat :=
  (h.map fun
    | .pushed j _ lost => if j = i then lost else 0
    | _ => 0).sum

def fromChannel (i : Nat) (merged : List (Nat × T)) : List T :=
  merged.filterMap fun m => if m.1 = i then some m.2 else none

theorem fromChannel_append (i j : Nat) (merged : List (Nat × T)) (x : T) :
    fromChannel i (merged ++ [(j, x)]) = fromChannel i merged ++ if j = i then [x] else [] := by
  unfold fromChannel
  rw [List.filterMap_append]
  by_cases hj : j = i
  · simp [hj]
  · simp [hj]

theorem sentBy_append_pushed (i j : Nat) (h : List (FunnelEvent T)) (x : T) (lost : Nat) :
    sentBy i (h ++ [.pushed j x lost]) = sentBy i h ++ if j = i then [x] else [] := by
  unfold sentBy
  rw [List.filterMap_append]
  by_cases hj : j = i
  · simp [hj]
  · simp [hj]

theorem lostBy_append_pushed (i j : Nat) (h : List (FunnelEvent T)) (x : T) (lost : Nat) :
    lostBy i (h ++ [.pushed j x lost]) = lostBy i h + if j = i then lost else 0 := by
  simp [lostBy]

/-- **What became of one generator's messages**: those funnelled and those unread stand in the order they were pushed, and
with the lost ones they are all of them. -/
def Accounted (h : List (FunnelEvent T)) (merged : List (Nat × T)) (i : Nat) (unread : List T) : Prop :=
  (fromChannel i merged ++ unread).Sublist (sentBy i h) ∧
    (fromChannel i merged).length + unread.length + lostBy i h = (sentBy i h).length

namespace Engine

/-- **The funnel merges the channels**: what it pushed on is an interleaving of what it popped from each, and the counters
hold how much that is. -/
structure Merges (n : Nat) (fwd : Bool) (h : List (FunnelEvent T)) (e : Engine que) : Prop where
  length : e.consumer.consumers.length = n
  last : e.consumer.last < n
  order : ∃ merged : List (Nat × T), merged.map Prod.snd = e.spsc ∧ (∀ m ∈ merged, m.1 < n) ∧
    ∀ i unread, e.consumer.unread[i]? = some unread → Accounted h merged i unread
  counted : (if fwd then e.stats.fwdSends else e.stats.tpuSends) + e.sends = e.spsc.length
  pass : e.sends ≤ e.pops ∧ e.pops < 16

theorem merges_init (fwd : Bool) {consumers : List que.Consumer} (hne : consumers ≠ [])
    (hempty : ∀ c ∈ consumers, que.unread c = []) :
    (⟨Mpsc.bounded consumers, [], 0, 0, {}⟩ : Engine que).Merges consumers.length fwd [] where
  length := rfl
  last := List.length_pos_iff.2 hne
  order := by
    refine ⟨[], rfl, nofun, fun i unread hi => ?_⟩
    obtain ⟨c, hc, rfl⟩ := List.mem_map.1 (List.mem_of_getElem? hi)
    rw [hempty c hc]
    exact ⟨List.Sublist.refl _, rfl⟩
  counted := by cases fwd <;> rfl
  pass := ⟨Nat.le_refl _, Nat.succ_pos _⟩

theorem Merges.push {n : Nat} {fwd : Bool} {h : List (FunnelEvent T)} {e : Engine que} (hm : e.Merges n fwd h) (i : Nat)
    (x : T) : (e.push i x).2.Merges n fwd (h ++ [(e.push i x).1]) := by
  obtain ⟨merged, hspsc, howners, horder⟩ := hm.order
  unfold Engine.push
  split
  · refine ⟨hm.length, hm.last, ⟨merged, hspsc, howners, fun i' unread hi' => ?_⟩, hm.counted, hm.pass⟩
    have hold := horder i' unread hi'
    simpa [Accounted, sentBy, lostBy] using hold
  · rename_i channel hchannel
    refine ⟨(List.length_set).trans hm.length, hm.last, ⟨merged, hspsc, howners, fun i' unread' hi' => ?_⟩, hm.counted,
      hm.pass⟩
    have hunread : e.consumer.unread[i]? = some (que.unread channel) := by
      simp [Mpsc.Consumer.unread, hchannel]
    have hi' : (e.consumer.unread.set i (que.unread (que.push channel x)))[i']? = some unread' := by
      simpa [Mpsc.Consumer.unread, List.map_set] using hi'
    unfold Accounted
    rw [sentBy_append_pushed, lostBy_append_pushed]
    by_cases hsame : i = i'
    · subst hsame
      rw [List.getElem?_set_self (List.getElem?_eq_some_iff.1 hunread).1] at hi'
      cases hi'
      obtain ⟨hsub, hlen⟩ := horder i _ hunread
      obtain ⟨k, hk⟩ := que.push_unread channel x
      have hle : (que.unread (que.push channel x)).length ≤ (que.unread channel).length + 1 := by
        rw [hk, List.length_drop, List.length_append, List.length_singleton]
        omega
      rw [if_pos rfl, if_pos rfl, List.length_append, List.length_singleton]
      refine ⟨?_, by omega⟩
      have hdrop : (fromChannel i merged ++ que.unread (que.push channel x)).Sublist
          ((fromChannel i merged ++ que.unread channel) ++ [x]) := by
        rw [hk, List.append_assoc]
        exact (List.drop_sublist _ _).append_left _
      exact hdrop.trans (hsub.append_right _)
    · rw [List.getElem?_set_ne hsame] at hi'
      rw [if_neg hsame, if_neg hsame, List.append_nil]
      exact horder i' unread' hi'

theorem pop_eq (fwd : Bool) {e : Engine que} {opt : Option T} {consumer : Mpsc.Consumer que.toQueCrate}
    (hpop : e.consumer.pop = .ok (opt, consumer)) :
    ∃ pops sends stats, e.pop fwd = .ok (.popped opt, ⟨consumer, e.spsc ++ opt.toList, pops, sends, stats⟩) ∧
      (e.sends ≤ e.pops ∧ e.pops < 16 → sends ≤ pops ∧ pops < 16) ∧
      (if fwd then stats.fwdSends else stats.tpuSends) + sends =
        (if fwd then e.stats.fwdSends else e.stats.tpuSends) + e.sends + opt.toList.length := by
  unfold Engine.pop
  rw [hpop, ok_bind]
  dsimp only
  by_cases hend : e.pops + 1 = 16
  · rw [if_pos hend]
    refine ⟨0, 0, _, rfl, fun _ => ⟨Nat.le_refl _, Nat.succ_pos _⟩, ?_⟩
    cases fwd with
    | false => exact (Nat.add_assoc _ _ _).symm
    | true => exact (Nat.add_assoc _ _ _).symm
  · rw [if_neg hend]
    have hone : opt.toList.length ≤ 1 := by cases opt <;> simp
    exact ⟨e.pops + 1, e.sends + opt.toList.length, e.stats, rfl, fun h => by omega, (Nat.add_assoc _ _ _).symm⟩

theorem Merges.pop {n : Nat} {fwd : Bool} {h : List (FunnelEvent T)} {e : Engine que} (hm : e.Merges n fwd h) :
    ∃ o e', e.pop fwd = .ok (o, e') ∧ e'.Merges n fwd (h ++ [o]) := by
  obtain ⟨merged, hspsc, howners, horder⟩ := hm.order
  have hsame : ∀ (opt : Option T) (i : Nat), sentBy i (h ++ [.popped opt]) = sentBy i h ∧
      lostBy i (h ++ [.popped opt]) = lostBy i h := by
    intro opt i
    simp [sentBy, lostBy]
  obtain ⟨m, c, hpop, hlen, hlast⟩ := Mpsc.pop_total (c := e.consumer) (hm.length.symm ▸ hm.last)
  obtain ⟨pops, sends, stats, heq, hpass, hcount⟩ := pop_eq fwd hpop
  refine ⟨_, _, heq, hlen.trans hm.length, (hlen.trans hm.length) ▸ hlast, ?_, ?_, hpass hm.pass⟩
  · rcases Mpsc.pop_cases (c := e.consumer) (hm.length.symm ▸ hm.last) with
      ⟨-, c', hpop', hunread, -⟩ | ⟨j, x, rest, c', hj, -, hpop', hset, -⟩
    · cases hpop.symm.trans hpop'
      refine ⟨merged, by simpa using hspsc, howners, fun i unread hi => ?_⟩
      unfold Accounted
      rw [(hsame none i).1, (hsame none i).2]
      exact horder i unread (hunread ▸ hi)
    · cases hpop.symm.trans hpop'
      have hjn : j < n := by
        rw [← hm.length, ← Mpsc.Consumer.length_unread]
        exact (List.getElem?_eq_some_iff.1 hj).1
      refine ⟨merged ++ [(j, x)], by simp [hspsc], ?_, fun i unread hi => ?_⟩
      · intro m hm'
        rcases List.mem_append.1 hm' with hm' | hm'
        · exact howners m hm'
        · cases List.mem_singleton.1 hm'
          exact hjn
      · unfold Accounted
        rw [(hsame (some x) i).1, (hsame (some x) i).2, fromChannel_append]
        rw [hset] at hi
        by_cases hij : j = i
        · subst hij
          rw [List.getElem?_set_self (List.getElem?_eq_some_iff.1 hj).1] at hi
          cases hi
          obtain ⟨hsub, hlength⟩ := horder j _ hj
          rw [if_pos rfl, List.append_assoc, List.singleton_append]
          refine ⟨hsub, ?_⟩
          rw [List.length_append, List.length_singleton]
          rw [List.length_cons] at hlength
          omega
        · rw [List.getElem?_set_ne hij] at hi
          rw [if_neg hij, List.append_nil]
          exact horder i unread hi
  · rw [hcount, hm.counted, List.length_append]

theorem Merges.step {n : Nat} {fwd : Bool} {h : List (FunnelEvent T)} {e : Engine que} (hm : e.Merges n fwd h)
    (st : FunnelStep T) : ∃ o e', e.step fwd st = .ok (o, e') ∧ e'.Merges n fwd (h ++ [o]) := by
  cases st with
  | push i x => exact ⟨_, _, rfl, hm.push i x⟩
  | pop => exact hm.pop

theorem Merges.run {n : Nat} {fwd : Bool} : ∀ (steps : List (FunnelStep T)) {h : List (FunnelEvent T)} {e : Engine que},
    e.Merges n fwd h → ∃ os e', Runs.run (Engine.step fwd) e steps = .ok (os, e') ∧ e'.Merges n fwd (h ++ os)
  | [], h, e, hm => ⟨[], e, rfl, by simpa using hm⟩
  | st :: steps, h, e, hm => by
    obtain ⟨o, e₁, hstep, hm₁⟩ := hm.step st
    obtain ⟨os, e', hrun, hm'⟩ := Merges.run steps hm₁
    exact ⟨o :: os, e', by simp [Runs.run, hstep, hrun], by simpa using hm'⟩

theorem flatten_first : ∀ {ls : List (List T)} {j : Nat} {x : T} {rest : List T}, ls[j]? = some (x :: rest) →
    (∀ i < j, ls[i]? = some []) → ls.flatten = x :: (ls.set j rest).flatten
  | [], j, x, rest, h, _ => by cases h
  | l :: ls, 0, x, rest, h, _ => by
    cases Option.some.inj h
    rfl
  | l :: ls, j + 1, x, rest, h, hbefore => by
    have hl : l = [] := Option.some.inj (hbefore 0 (Nat.succ_pos j))
    rw [hl, List.flatten_cons, List.nil_append, List.set_cons_succ, List.flatten_cons, List.nil_append]
    exact flatten_first (by simpa using h) fun i hi => by simpa using hbefore (i + 1) (Nat.succ_lt_succ hi)

/-- **Pops alone** take from the channels as if they stood one behind the other. -/
theorem Merges.pops {n : Nat} {fwd : Bool} : ∀ (k : Nat) {h : List (FunnelEvent T)} {e : Engine que}, e.Merges n fwd h →
    ∃ os e', Runs.run (Engine.step fwd) e (List.replicate k .pop) = .ok (os, e') ∧
      e'.spsc = e.spsc ++ e.consumer.unread.flatten.take k ∧
      e'.consumer.unread.flatten = e.consumer.unread.flatten.drop k
  | 0, h, e, _ => ⟨[], e, rfl, by simp, by simp⟩
  | k + 1, h, e, hm => by
    obtain ⟨o, e₁, hstep, hm₁⟩ := hm.step .pop
    obtain ⟨os, e', hrun, hspsc, hleft⟩ := Merges.pops k hm₁
    refine ⟨o :: os, e', by simp [List.replicate_succ, Runs.run, hstep, hrun], ?_⟩
    rw [hspsc, hleft]
    rcases Mpsc.pop_cases (c := e.consumer) (hm.length.symm ▸ hm.last) with
      ⟨hnone, c, hpop, hunread, -⟩ | ⟨j, x, rest, c, hj, hbefore, hpop, hset, -⟩
    · obtain ⟨pops, sends, stats, heq, -⟩ := pop_eq fwd hpop
      cases hstep.symm.trans heq
      have hflat : e.consumer.unread.flatten = [] := List.flatten_eq_nil_iff.2 hnone
      simp [hunread, hflat]
    · obtain ⟨pops, sends, stats, heq, -⟩ := pop_eq fwd hpop
      cases hstep.symm.trans heq
      rw [flatten_first hj hbefore]
      simp [hset]

/-- **The funnel empties the channels, the first ones first.**  In every state it reaches, the next `k` pops, as long as
nobody pushes between them, push on the first `k` unread messages in the order of the channels and leave the others; so as
many passes as there are sixteens of unread messages leave every channel empty. -/
theorem funnel_drains (que : LappedQue T) (consumers : List que.Consumer) (hne : consumers ≠ [])
    (hempty : ∀ c ∈ consumers, que.unread c = []) (fwd : Bool) (steps : List (FunnelStep T)) :
    ∃ h e, Runs.run (step fwd) (⟨Mpsc.bounded consumers, [], 0, 0, {}⟩ : Engine que) steps = .ok (h, e) ∧
      (∀ k, ∃ h' e', Runs.run (step fwd) e (List.replicate k .pop) = .ok (h', e') ∧
        e'.spsc = e.spsc ++ e.consumer.unread.flatten.take k ∧
        e'.consumer.unread.flatten = e.consumer.unread.flatten.drop k) ∧
      ∀ passes, e.consumer.unread.flatten.length ≤ 16 * passes →
        ∃ h' e', Runs.run (step fwd) e (List.replicate (16 * passes) .pop) = .ok (h', e') ∧
          e'.spsc = e.spsc ++ e.consumer.unread.flatten ∧ ∀ unread ∈ e'.consumer.unread, unread = [] := by
  obtain ⟨h, e, hrun, hm⟩ := Merges.run steps (merges_init fwd hne hempty)
  refine ⟨h, e, hrun, fun k => hm.pops k, fun passes hpasses => ?_⟩
  obtain ⟨h', e', hrun', hspsc, hleft⟩ := hm.pops (16 * passes)
  refine ⟨h', e', hrun', ?_, ?_⟩
  · rw [hspsc, List.take_of_length_le hpasses]
  · rw [List.drop_eq_nil_of_le hpasses] at hleft
    exact List.flatten_eq_nil_iff.1 hleft

/-- Three unread messages are one pass. -/
theorem funnel_drains_three :
    ∃ (h h' : List (FunnelEvent Nat)) (e e' : Engine (pairQue Nat)),
      Runs.run (step true) (⟨Mpsc.bounded [[], []], [], 0, 0, {}⟩ : Engine (pairQue Nat))
        [.push 1 7, .push 0 1, .push 0 2] = .ok (h, e) ∧
      Runs.run (step true) e (List.replicate 16 .pop) = .ok (h', e') ∧ e'.spsc = [1, 2, 7] := by
  obtain ⟨h, e, hrun, -, hpasses⟩ := funnel_drains (pairQue Nat) [[], []] (by simp)
    (List.forall_mem_cons.2 ⟨rfl, List.forall_mem_singleton.2 rfl⟩) true [.push 1 7, .push 0 1, .push 0 2]
  have hval : Runs.run (step true) (⟨Mpsc.bounded [[], []], [], 0, 0, {}⟩ : Engine (pairQue Nat))
      [.push 1 7, .push 0 1, .push 0 2] =
      .ok ([.pushed 1 7 0, .pushed 0 1 0, .pushed 0 2 0], ⟨⟨[[1, 2], [7]], 0⟩, [], 0, 0, {}⟩) := rfl
  cases hrun.symm.trans hval
  obtain ⟨h', e', hrun', hspsc, -⟩ := hpasses 1 (by decide)
  exact ⟨_, h', _, e', hrun, hrun', hspsc⟩

end Engine

end Qos
