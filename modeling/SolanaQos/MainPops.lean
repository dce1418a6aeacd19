import SolanaQos.MainLoop
/-!
# The pops of the main loop (`qos/src/main.rs`)

The calls of the loop pop their messages one at a time, and messages arrive between the pops.  A call on packets ends
after a thousand of them; the others go on until they find their channel empty, the one on remaining metas unless it
updates the model.  So a call may pop what came after it began, and one that is fed as fast as it pops does not end.
Whatever the interleaving, the loop does what its whole calls do with everything they pop there from their start.

`PopLoop` is the loop within a call.  An iteration pops one message and does its turn, or finds that the call is over
and goes to the next place (`iterate_cases`).  Two relations carry the argument:
* `InCall` ties the loop to a state before the call, in which everything that came since had been there already; what
  arrives meanwhile might have been there before (`InCall.arrive`), and one more pop is one more turn of the call
  (`InCall.pop`);
* `Linearised` ties it to the loop of whole calls: the arrivals are the same in the same order, so are the turns, and
  the whole calls end where the current one begins.

When a call ends, the whole call on the messages it popped does the same and stops there (`turn_called`): its channel
is empty, or the thousand are full, or the model was updated.

Two results on progress.  `pops_serve` bounds how long a channel waits, counted in iterations: as many as there are
messages, and eight for each round.  `fed_call_stays` is the other side: a call without a bound stays where it is as
long as messages come as fast as it pops them, and no other channel is read.
-/
namespace Qos

open Runs

def Arrival.message : Arrival → Message
  | .packet _ p => .packet p
  | .signature s => .recentSignature s
  | .remainingMeta m => .remainingMeta m
  | .failed p => .sigverifyFailed p

@[simp] def MainStep.arrival : MainStep → Option Arrival
  | .arrive arrival => some arrival
  | .turn _ => none

/-- `for _ in 0..1_000`; the other loops have no bound. -/
def Place.mayPop : Place → Nat → Bool
  | .packets _, iterations => iterations < 1000
  | _, _ => true

variable {S : Sokoban} {F : Type} [LinearOrder F] {H : HeapCrate (ScoredTransaction F)}

/-- The `break` after an update of the model. -/
def Event.breaks : Event F → Bool
  | .remainingMeta _ _ (some _) => true
  | _ => false

def MainLoop.pop (m : MainLoop S H) : Option (Arrival × MainLoop S H) :=
  match m.place with
  | .packets channel =>
    match m.packets channel with
    | [] => none
    | packet :: packets => some (.packet channel packet, { m with packets := Function.update m.packets channel packets })
  | .signatures =>
    match m.signatures with
    | [] => none
    | signature :: signatures => some (.signature signature, { m with signatures := signatures })
  | .log => none
  | .metas =>
    match m.metas with
    | [] => none
    | remainingMeta :: metas => some (.remainingMeta remainingMeta, { m with metas := metas })
  | .failed =>
    match m.failed with
    | [] => none
    | packet :: failed => some (.failed packet, { m with failed := failed })

def MainLoop.waiting (m : MainLoop S H) : Nat := ∑ p, (m.unread p).length

/-- The loop within a call, and how many messages the call has popped. -/
structure PopLoop (S : Sokoban) {F : Type} [LinearOrder F] (H : HeapCrate (ScoredTransaction F)) where
  main : MainLoop S H
  iterations : Nat := 0

inductive PopEvent (F : Type)
  | arrived (arrival : Arrival)
  | popped (arrival : Arrival) (event : Event F)
  | left

namespace PopEvent

@[simp] def arrival : PopEvent F → Option Arrival
  | .arrived arrival => some arrival
  | .popped _ _ => none
  | .left => none

@[simp] def event : PopEvent F → Option (Event F)
  | .arrived _ => none
  | .popped _ event => some event
  | .left => none

@[simp] def poppedAt (p : Place) : PopEvent F → List Arrival
  | .arrived _ => []
  | .popped arrival _ => if arrival.place = p then [arrival] else []
  | .left => []

@[simp] def leaves : PopEvent F → Bool
  | .arrived _ => false
  | .popped _ event => event.breaks
  | .left => true

end PopEvent

namespace PopLoop

section Steps

variable [Zero F] [One F] [Add F] [Sub F] [Mul F] [Div F] [NatCast F] [OfScientific F]

def leave (m : MainLoop S H) : PopLoop S H := ⟨{ m with place := m.place.next }, 0⟩

/-- One iteration of the loop in the call at the loop's place, or the glance at the timer. -/
def iterate (sdk : Sdk) (args : Args) (s : PopLoop S H) (elapsedMs : UInt64) : Except Panic (PopEvent F × PopLoop S H) :=
  if s.main.place = .log then do
    let (_, main) ← s.main.turn sdk args elapsedMs
    return (.left, ⟨main, 0⟩)
  else if s.main.place.mayPop s.iterations then
    match s.main.pop with
    | none => return (.left, leave s.main)
    | some (arrival, main) => do
      let (event, qos) ← main.qos.turn sdk args arrival.message
      let main := { main with qos := qos }
      return (.popped arrival event, if event.breaks then leave main else ⟨main, s.iterations + 1⟩)
  else return (.left, leave s.main)

def step (sdk : Sdk) (args : Args) (s : PopLoop S H) : MainStep → Except Panic (PopEvent F × PopLoop S H)
  | .arrive arrival => return (.arrived arrival, { s with main := s.main.arrive arrival })
  | .turn elapsedMs => s.iterate sdk args elapsedMs

end Steps

end PopLoop

/-! ## A pop -/

namespace MainLoop

theorem ext_unread {m m' : MainLoop S H} (hqos : m.qos = m'.qos) (hplace : m.place = m'.place)
    (hlog : m.lastLog = m'.lastLog) (hunread : ∀ p, m.unread p = m'.unread p) : m = m' := by
  obtain ⟨qos, packets, signatures, metas, failed, place, lastLog⟩ := m
  obtain ⟨qos', packets', signatures', metas', failed', place', lastLog'⟩ := m'
  have hpackets : packets = packets' := funext fun channel =>
    List.map_injective_iff.2 (fun a b h => by cases h; rfl) (hunread (.packets channel))
  have hsignatures : signatures = signatures' :=
    List.map_injective_iff.2 (fun a b h => by cases h; rfl) (hunread .signatures)
  have hmetas : metas = metas' := List.map_injective_iff.2 (fun a b h => by cases h; rfl) (hunread .metas)
  have hfailed : failed = failed' := List.map_injective_iff.2 (fun a b h => by cases h; rfl) (hunread .failed)
  cases hqos
  cases hplace
  cases hlog
  rw [hpackets, hsignatures, hmetas, hfailed]

theorem pop_none {m : MainLoop S H} (h : m.pop = none) : m.unread m.place = [] := by
  unfold pop at h
  split at h
  · rename_i channel hplace
    split at h
    · rename_i hempty
      rw [hplace, unread, hempty]
      rfl
    · cases h
  · rename_i hplace
    split at h
    · rename_i hempty
      rw [hplace, unread, hempty]
      rfl
    · cases h
  · rename_i hplace
    rw [hplace]
    rfl
  · rename_i hplace
    split at h
    · rename_i hempty
      rw [hplace, unread, hempty]
      rfl
    · cases h
  · rename_i hplace
    split at h
    · rename_i hempty
      rw [hplace, unread, hempty]
      rfl
    · cases h

structure Popped (m : MainLoop S H) (a : Arrival) (m' : MainLoop S H) : Prop where
  arrival : a.place = m.place
  first : m.unread m.place = a :: m'.unread m.place
  others : ∀ p, p ≠ m.place → m'.unread p = m.unread p
  qos : m'.qos = m.qos
  place : m'.place = m.place
  lastLog : m'.lastLog = m.lastLog

theorem pop_some {m m' : MainLoop S H} {a : Arrival} (h : m.pop = some (a, m')) : Popped m a m' := by
  unfold pop at h
  split at h
  · rename_i channel hplace
    split at h
    · cases h
    · rename_i packet packets hfirst
      cases h
      refine ⟨hplace.symm, by simp [hplace, unread, hfirst], fun p hp => ?_, rfl, rfl, rfl⟩
      exact unread_update m channel packets (by rwa [hplace] at hp)
  · rename_i hplace
    split at h
    · cases h
    · rename_i signature signatures hfirst
      cases h
      refine ⟨hplace.symm, by simp [hplace, unread, hfirst], fun p hp => ?_, rfl, rfl, rfl⟩
      cases p with
      | signatures => exact absurd hplace.symm hp
      | _ => rfl
  · cases h
  · rename_i hplace
    split at h
    · cases h
    · rename_i remainingMeta metas hfirst
      cases h
      refine ⟨hplace.symm, by simp [hplace, unread, hfirst], fun p hp => ?_, rfl, rfl, rfl⟩
      cases p with
      | metas => exact absurd hplace.symm hp
      | _ => rfl
  · rename_i hplace
    split at h
    · cases h
    · rename_i packet failed hfirst
      cases h
      refine ⟨hplace.symm, by simp [hplace, unread, hfirst], fun p hp => ?_, rfl, rfl, rfl⟩
      cases p with
      | failed => exact absurd hplace.symm hp
      | _ => rfl

theorem Popped.subset {m m' : MainLoop S H} {a : Arrival} (h : Popped m a m') (p : Place) :
    m'.unread p ⊆ m.unread p := by
  by_cases hp : p = m.place
  · rw [hp, h.first]
    exact List.subset_cons_self _ _
  · rw [h.others p hp]
    exact fun _ => id

theorem mem_failed {m : MainLoop S H} {packet : Packet} : .failed packet ∈ m.unread .failed ↔ packet ∈ m.failed := by
  simp [unread]

end MainLoop

/-! ## The end of a call -/

section Calls

variable [Zero F] [One F] [Add F] [Sub F] [Mul F] [Div F] [NatCast F] [OfScientific F]

namespace QosState

theorem turn_breaks {sdk : Sdk} {args : Args} {q q' : QosState S H} {message : Message} {event : Event F}
    (h : q.turn sdk args message = .ok (event, q')) (hbreaks : event.breaks = true) :
    ∃ m, message = .remainingMeta m := by
  cases turn_cases h with
  | packet hturn => cases hturn <;> cases hbreaks
  | recentSignature signature => cases hbreaks
  | remainingMeta hturn => exact ⟨_, rfl⟩
  | sigverifyFailed model hmodel => cases hbreaks

omit [Zero F] in
theorem consumeRemainingMetas_cons {args : Args} {q q₁ q' : QosState S H} {m : QoSRemainingMeta}
    {ms : List QoSRemainingMeta} {event : Event F} {events : List (Event F)}
    (hturn : q.remainingMetaTurn args m = .ok (event, q₁)) (hgoes : event.breaks = false)
    (hrest : q₁.consumeRemainingMetas args ms = .ok (events, q')) :
    q.consumeRemainingMetas args (m :: ms) = .ok (event :: events, q') := by
  rw [consumeRemainingMetas, hturn, ok_bind]
  simp only
  split
  · cases hgoes
  · rw [hrest]
    rfl

omit [Zero F] in
theorem consumeRemainingMetas_breaks {args : Args} {q q' : QosState S H} {m : QoSRemainingMeta}
    (ms : List QoSRemainingMeta) {event : Event F} (hturn : q.remainingMetaTurn args m = .ok (event, q'))
    (hbreaks : event.breaks = true) : q.consumeRemainingMetas args (m :: ms) = .ok ([event], q') := by
  rw [consumeRemainingMetas, hturn, ok_bind]
  simp only
  split
  · rfl
  · rename_i hgoes
    unfold Event.breaks at hbreaks
    split at hbreaks
    · exact absurd rfl (hgoes _ _ _)
    · cases hbreaks

theorem consumeRemainingMetas_append {sdk : Sdk} {args : Args} {rest : List QoSRemainingMeta} {q₁ q' : QosState S H}
    {more : List (Event F)} (hrest : q₁.consumeRemainingMetas args rest = .ok (more, q')) :
    ∀ (ms : List QoSRemainingMeta) (q : QosState S H) (events : List (Event F)),
      run (turn sdk args) q (ms.map .remainingMeta) = .ok (events, q₁) → (∀ event ∈ events, event.breaks = false) →
      q.consumeRemainingMetas args (ms ++ rest) = .ok (events ++ more, q')
  | [], q, events, hrun, hgoes => by
    cases hrun
    exact hrest
  | m :: ms, q, events, hrun, hgoes => by
    obtain ⟨event, q₂, events', hturn, hrun', rfl⟩ := run_cons_ok hrun
    obtain ⟨hevent, hevents⟩ := List.forall_mem_cons.1 hgoes
    exact consumeRemainingMetas_cons hturn hevent (consumeRemainingMetas_append hrest ms q₂ events' hrun' hevents)

end QosState

namespace MainLoop

omit [Zero F] [One F] [Add F] [Sub F] [Mul F] [Div F] [NatCast F] [OfScientific F] in
theorem map_split {A : Type} {f : A → Arrival} (hf : Function.Injective f) {l : List A} (rest : List A)
    {pops : List Arrival} (h : l.map f = pops ++ rest.map f) : ∃ ps, ps.map f = pops ∧ l = ps ++ rest := by
  obtain ⟨ps, rest', rfl, hps, hrest⟩ := List.map_eq_append_iff.1 h
  rw [List.map_injective_iff.2 hf hrest]
  exact ⟨ps, hps, rfl⟩

theorem turn_returns {sdk : Sdk} {args : Args} {m t : MainLoop S H} {pops : List Arrival} {events : List (Event F)}
    (hlog : m.place ≠ .log) (hhere : m.unread m.place = pops ++ t.unread m.place)
    (hrun : run (QosState.turn sdk args) m.qos (pops.map Arrival.message) = .ok (events, t.qos))
    (hpackets : ∀ channel, m.place = .packets channel → (m.unread m.place).take 1000 = pops)
    (hmetas : m.place = .metas → m.qos.consumeRemainingMetas args m.metas = .ok (events, t.qos))
    (hrest : m.place = .signatures ∨ m.place = .failed → t.unread m.place = []) :
    ∃ call m', m.turn sdk args 0 = .ok (.called m.place call events, m') ∧ m.place.popped call = pops ∧
      m'.qos = t.qos := by
  unfold turn
  cases hp : m.place with
  | packets channel =>
    have htake : ((m.packets channel).take 1000).map (.packet channel) = pops := by
      have h := hpackets channel hp
      rwa [hp, unread, ← List.map_take] at h
    have hcall : m.qos.consumeTransactionPackets sdk (m.packets channel) = .ok (events, t.qos) := by
      rw [QosState.consumeTransactionPackets, ← hrun, ← htake, List.map_map]
      exact run_map (Arrival.message ∘ Arrival.packet channel) (by intro q message; rfl) _ m.qos
    simp only [hcall, ok_bind]
    exact ⟨_, _, rfl, htake, rfl⟩
  | signatures =>
    have hall : m.signatures.map .signature = pops := by
      rw [hrest (Or.inl hp), hp, List.append_nil] at hhere
      exact hhere
    have hcall : m.qos.consumeRecentSignatures m.signatures = .ok (events, t.qos) := by
      rw [QosState.consumeRecentSignatures, ← hrun, ← hall, List.map_map]
      exact run_map (Arrival.message ∘ Arrival.signature) (by intro q message; rfl) _ m.qos
    simp only [hcall, ok_bind]
    exact ⟨_, _, rfl, hall, rfl⟩
  | log => exact absurd hp hlog
  | metas =>
    rw [hp] at hhere
    obtain ⟨ps, rfl, hps⟩ := map_split (fun a b h => by cases h; rfl) t.metas hhere
    have htake : m.metas.take events.length = ps := by
      rw [hps, length_run hrun, List.length_map, List.length_map, List.take_left]
    simp only [hmetas hp, ok_bind]
    exact ⟨_, _, rfl, congrArg (List.map Arrival.remainingMeta) htake, rfl⟩
  | failed =>
    have hall : m.failed.map .failed = pops := by
      rw [hrest (Or.inr hp), hp, List.append_nil] at hhere
      exact hhere
    have hcall : m.qos.consumeSigverifySignals m.failed = .ok (events, t.qos) := by
      rw [QosState.consumeSigverifySignals, ← hrun, ← hall, List.map_map]
      exact run_map (Arrival.message ∘ Arrival.failed) (by intro q message; rfl) _ m.qos
    simp only [hcall, ok_bind]
    exact ⟨_, _, rfl, hall, rfl⟩

/-- **A whole call.**  The loop turns to `t` once the turns of the popped messages lead there and the call ends then. -/
theorem turn_called {sdk : Sdk} {args : Args} {m t : MainLoop S H} {pops : List Arrival} {events : List (Event F)}
    (hlog : m.place ≠ .log) (hplace : t.place = m.place) (hlast : t.lastLog = m.lastLog)
    (hhere : m.unread m.place = pops ++ t.unread m.place) (hothers : ∀ p, p ≠ m.place → t.unread p = m.unread p)
    (hrun : run (QosState.turn sdk args) m.qos (pops.map Arrival.message) = .ok (events, t.qos))
    (hpackets : ∀ channel, m.place = .packets channel → (m.unread m.place).take 1000 = pops)
    (hmetas : m.place = .metas → m.qos.consumeRemainingMetas args m.metas = .ok (events, t.qos))
    (hrest : m.place = .signatures ∨ m.place = .failed → t.unread m.place = []) :
    ∃ call, m.turn sdk args 0 = .ok (.called m.place call events, { t with place := t.place.next }) ∧
      m.place.popped call = pops := by
  obtain ⟨call, m', hturn, hpopped, hqos⟩ := turn_returns hlog hhere hrun hpackets hmetas hrest
  cases turn_cases hturn with
  | called _ _ _ hcall hpops henough hothers' hplace' hlog' =>
    -- what is left of the channel is the same on both sides
    have hunread : ∀ p, m'.unread p = t.unread p := by
      intro p
      by_cases hp : p = m.place
      · rw [hp]
        rw [hhere, hpopped] at hpops
        exact (List.append_cancel_left hpops).symm
      · rw [hothers' p hp, hothers p hp]
    have hsame : m' = { t with place := t.place.next } :=
      ext_unread hqos (by rw [hplace', hplace]) (by rw [hlog', hlast]) hunread
    exact ⟨call, by rw [hturn, hsame], hpopped⟩

theorem turn_log {sdk : Sdk} {args : Args} {m m' : MainLoop S H} {elapsedMs : UInt64} {o : MainEvent F}
    (hlog : m.place = .log) (h : m.turn sdk args elapsedMs = .ok (o, m')) :
    (∃ window, o = .logged window) ∧ ∀ p, m'.unread p = m.unread p := by
  unfold turn at h
  simp only [hlog] at h
  split at h
  · cases h
    exact ⟨⟨_, rfl⟩, fun p => rfl⟩
  · cases h
    exact ⟨⟨_, rfl⟩, fun p => rfl⟩

end MainLoop

/-! ## Within a call -/

namespace PopLoop

/-- **Where the loop is within a call**: `m` is as the loop was before the call, had everything that came since been there
already, and the call has popped `pops` of it and done `events`. -/
structure InCall (sdk : Sdk) (args : Args) (m : MainLoop S H) (pops : List Arrival) (events : List (Event F))
    (s : PopLoop S H) : Prop where
  place : s.main.place = m.place
  lastLog : s.main.lastLog = m.lastLog
  unread : ∀ p, m.unread p = (if p = m.place then pops else []) ++ s.main.unread p
  turns : run (QosState.turn sdk args) m.qos (pops.map Arrival.message) = .ok (events, s.main.qos)
  iterations : pops.length = s.iterations
  goesOn : ∀ event ∈ events, event.breaks = false
  limited : ∀ channel, m.place = .packets channel → s.iterations ≤ 1000

theorem InCall.start (sdk : Sdk) (args : Args) (m : MainLoop S H) : InCall sdk args m [] [] ⟨m, 0⟩ where
  place := rfl
  lastLog := rfl
  unread := fun p => by rw [ite_self, List.nil_append]
  turns := rfl
  iterations := rfl
  goesOn := by simp
  limited := fun channel h => Nat.zero_le _

variable {sdk : Sdk} {args : Args} {m : MainLoop S H} {pops : List Arrival} {events : List (Event F)} {s : PopLoop S H}

theorem InCall.here (h : InCall sdk args m pops events s) : m.unread m.place = pops ++ s.main.unread m.place := by
  rw [h.unread m.place, if_pos rfl]

theorem InCall.others (h : InCall sdk args m pops events s) {p : Place} (hp : p ≠ m.place) :
    s.main.unread p = m.unread p := by
  rw [h.unread p, if_neg hp, List.nil_append]

/-- What arrives meanwhile might have been there before the call. -/
theorem InCall.arrive (h : InCall sdk args m pops events s) (a : Arrival) :
    InCall sdk args (m.arrive a) pops events { s with main := s.main.arrive a } := by
  have hplace : ∀ m : MainLoop S H, (m.arrive a).place = m.place := fun m => by cases a <;> rfl
  have hlog : ∀ m : MainLoop S H, (m.arrive a).lastLog = m.lastLog := fun m => by cases a <;> rfl
  have hqos : ∀ m : MainLoop S H, (m.arrive a).qos = m.qos := fun m => by cases a <;> rfl
  refine ⟨?_, ?_, fun p => ?_, ?_, h.iterations, h.goesOn, fun channel hp => h.limited channel ?_⟩
  · rw [hplace, hplace, h.place]
  · rw [hlog, hlog, h.lastLog]
  · rw [MainLoop.unread_arrive, MainLoop.unread_arrive, hplace, h.unread p, List.append_assoc]
  · rw [hqos, hqos]
    exact h.turns
  · rw [← hp, hplace]

theorem InCall.pop (h : InCall sdk args m pops events s) {a : Arrival} {main : MainLoop S H}
    (hpop : s.main.Popped a main) {event : Event F} {qos : QosState S H}
    (hturn : main.qos.turn sdk args a.message = .ok (event, qos)) (hgoes : event.breaks = false)
    (hmay : s.main.place.mayPop s.iterations = true) :
    InCall sdk args m (pops ++ [a]) (events ++ [event]) ⟨{ main with qos := qos }, s.iterations + 1⟩ := by
  rw [hpop.qos] at hturn
  refine ⟨hpop.place.trans h.place, hpop.lastLog.trans h.lastLog, fun p => ?_, ?_, ?_, ?_, fun channel hp => ?_⟩
  · show _ = _ ++ main.unread p
    by_cases hp : p = m.place
    · subst hp
      have hfirst := hpop.first
      rw [h.place] at hfirst
      rw [if_pos rfl, h.here, hfirst, List.append_assoc, List.singleton_append]
    · rw [if_neg hp, List.nil_append, hpop.others p (by rwa [h.place]), h.others hp]
  · rw [List.map_append]
    exact run_append h.turns (run_one hturn)
  · rw [List.length_append, h.iterations, List.length_singleton]
  · intro e he
    rcases List.mem_append.1 he with he | he
    · exact h.goesOn e he
    · rw [List.mem_singleton.1 he]
      exact hgoes
  · rw [h.place, hp, Place.mayPop, decide_eq_true_eq] at hmay
    exact hmay

theorem InCall.ends (h : InCall sdk args m pops events s) (hlog : m.place ≠ .log)
    (hstop : s.main.unread m.place = [] ∨ m.place.mayPop s.iterations = false) :
    ∃ call, m.turn sdk args 0 = .ok (.called m.place call events, (leave s.main).main) ∧
      m.place.popped call = pops := by
  have hempty : (∀ channel, m.place ≠ .packets channel) → s.main.unread m.place = [] := by
    intro hplace
    rcases hstop with hempty | hfull
    · exact hempty
    · cases hp : m.place with
      | packets channel => exact absurd hp (hplace channel)
      | _ =>
        rw [hp] at hfull
        cases hfull
  refine MainLoop.turn_called hlog h.place h.lastLog h.here (fun p hp => h.others hp) h.turns ?_ ?_ ?_
  · intro channel hp
    have hlimited := h.limited channel hp
    rcases hstop with hempty | hfull
    · rw [h.here, hempty, List.append_nil]
      exact List.take_of_length_le (by rw [h.iterations]; exact hlimited)
    · rw [hp, Place.mayPop, decide_eq_false_iff_not] at hfull
      have hlen : pops.length = 1000 := by rw [h.iterations]; omega
      rw [h.here, ← hlen, List.take_left]
  · intro hp
    have hnone : s.main.metas = [] := by
      have hnil := hempty (by rw [hp]; simp)
      rw [hp] at hnil
      exact List.map_eq_nil_iff.1 hnil
    have hhere := h.here
    rw [hp] at hhere
    obtain ⟨ps, rfl, hps⟩ := MainLoop.map_split (fun a b h => by cases h; rfl) s.main.metas hhere
    have hrun := h.turns
    rw [List.map_map] at hrun
    have hdone : s.main.qos.consumeRemainingMetas args s.main.metas = .ok ([], s.main.qos) := by
      rw [hnone]
      rfl
    rw [hps, ← List.append_nil events]
    exact QosState.consumeRemainingMetas_append hdone ps m.qos events hrun h.goesOn
  · intro hp
    exact hempty (by rcases hp with hp | hp <;> simp [hp])

theorem InCall.breaks (h : InCall sdk args m pops events s) {a : Arrival} {main : MainLoop S H}
    (hpop : s.main.Popped a main) {event : Event F} {qos : QosState S H}
    (hturn : main.qos.turn sdk args a.message = .ok (event, qos)) (hbreaks : event.breaks = true) :
    ∃ call, m.turn sdk args 0 =
        .ok (.called m.place call (events ++ [event]), (leave { main with qos := qos }).main) ∧
      m.place.popped call = pops ++ [a] := by
  obtain ⟨r, hr⟩ := QosState.turn_breaks hturn hbreaks
  have ha : a = .remainingMeta r := by
    cases a <;> cases hr
    rfl
  subst ha
  have hp : m.place = .metas := (hpop.arrival.trans h.place).symm
  rw [hpop.qos] at hturn
  have hfirst := hpop.first
  rw [h.place] at hfirst
  have hhere : m.unread m.place = (pops ++ [.remainingMeta r]) ++ main.unread m.place := by
    rw [h.here, hfirst, List.append_assoc, List.singleton_append]
  refine MainLoop.turn_called (by simp [hp]) (hpop.place.trans h.place) (hpop.lastLog.trans h.lastLog) hhere ?_ ?_ ?_ ?_ ?_
  · intro p hpp
    exact (hpop.others p (by rwa [h.place])).trans (h.others hpp)
  · rw [List.map_append]
    exact run_append h.turns (run_one hturn)
  · intro channel hc
    simp [hp] at hc
  · intro _
    have hbefore := h.here
    rw [hp] at hbefore hfirst
    obtain ⟨ps, rfl, hps⟩ := MainLoop.map_split (fun a b h => by cases h; rfl) s.main.metas hbefore
    have hmetas : s.main.metas = r :: main.metas :=
      List.map_injective_iff.2 (fun a b h => by cases h; rfl) hfirst
    have hrun := h.turns
    rw [List.map_map] at hrun
    rw [hps, hmetas]
    exact QosState.consumeRemainingMetas_append (QosState.consumeRemainingMetas_breaks main.metas hturn hbreaks) ps m.qos
      events hrun h.goesOn
  · intro hc
    rcases hc with hc | hc <;> simp [hp] at hc

/-! ## The interleaving as whole calls -/

/-- **The whole calls that the loop has done the work of**: `steps` and the history `h'` lead the loop of whole calls to
`m`, and the loop is within the call that begins there. -/
structure Linearised (sdk : Sdk) (args : Args) (m₀ : MainLoop S H) (h : List (PopEvent F)) (s : PopLoop S H)
    (steps : List MainStep) (h' : List (MainEvent F)) (m : MainLoop S H) (pops : List Arrival) (events : List (Event F)) :
    Prop where
  run : Runs.run (MainLoop.step sdk args) m₀ steps = .ok (h', m)
  inCall : InCall sdk args m pops events s
  arrivals : steps.filterMap MainStep.arrival = h.filterMap PopEvent.arrival
  events : h.filterMap PopEvent.event = (h'.filterMap MainEvent.events).flatten ++ events
  popped : ∀ p, h.flatMap (PopEvent.poppedAt p) =
    h'.flatMap (MainEvent.poppedAt p) ++ if p = m.place then pops else []
  turns : steps.countP MainStep.isTurn = h.countP PopEvent.leaves

variable {m₀ : MainLoop S H} {h : List (PopEvent F)} {steps : List MainStep} {h' : List (MainEvent F)}

theorem Linearised.arrive (hl : Linearised sdk args m₀ h s steps h' m pops events) (a : Arrival) :
    Linearised sdk args m₀ (h ++ [.arrived a]) { s with main := s.main.arrive a } (steps ++ [.arrive a])
      (h' ++ [.arrived a]) (m.arrive a) pops events where
  run := run_append hl.run (run_one rfl)
  inCall := hl.inCall.arrive a
  arrivals := by
    rw [filterMap_append_one, filterMap_append_one, hl.arrivals]
    rfl
  events := by
    rw [filterMap_append_one, filterMap_append_one, hl.events]
    simp
  popped := fun p => by
    have hplace : (m.arrive a).place = m.place := by cases a <;> rfl
    rw [flatMap_append_one, flatMap_append_one, hl.popped p, hplace]
    simp
  turns := by
    rw [List.countP_append, List.countP_append, hl.turns]
    simp [MainStep.isTurn]

theorem Linearised.pop (hl : Linearised sdk args m₀ h s steps h' m pops events) {a : Arrival} {main : MainLoop S H}
    (hpop : s.main.Popped a main) {event : Event F} {qos : QosState S H}
    (hturn : main.qos.turn sdk args a.message = .ok (event, qos)) (hgoes : event.breaks = false)
    (hmay : s.main.place.mayPop s.iterations = true) :
    Linearised sdk args m₀ (h ++ [.popped a event]) ⟨{ main with qos := qos }, s.iterations + 1⟩ steps h' m (pops ++ [a])
      (events ++ [event]) where
  run := hl.run
  inCall := hl.inCall.pop hpop hturn hgoes hmay
  arrivals := by
    rw [filterMap_append_one, hl.arrivals]
    simp
  events := by
    rw [filterMap_append_one, hl.events, List.append_assoc]
    rfl
  popped := fun p => by
    have ha : a.place = m.place := hpop.arrival.trans hl.inCall.place
    rw [flatMap_append_one, hl.popped p, List.append_assoc, PopEvent.poppedAt, ha]
    by_cases hp : p = m.place
    · rw [if_pos hp, if_pos hp, if_pos hp.symm]
    · rw [if_neg hp, if_neg hp, if_neg (Ne.symm hp), List.append_nil]
  turns := by
    rw [List.countP_append, hl.turns]
    simp [hgoes]

theorem Linearised.turn (hl : Linearised sdk args m₀ h s steps h' m pops events) {o : PopEvent F} {elapsedMs : UInt64}
    {o' : MainEvent F} {m' : MainLoop S H} (hturn : m.turn sdk args elapsedMs = .ok (o', m'))
    (harrival : o.arrival = none) (hevents : events ++ o.event.toList = o'.events.getD [])
    (hpopped : ∀ p, (if p = m.place then pops else []) ++ o.poppedAt p = o'.poppedAt p) (hleaves : o.leaves = true) :
    Linearised sdk args m₀ (h ++ [o]) ⟨m', 0⟩ (steps ++ [.turn elapsedMs]) (h' ++ [o']) m' [] [] where
  run := run_append hl.run (run_one hturn)
  inCall := .start sdk args m'
  arrivals := by
    rw [filterMap_append_one, filterMap_append_one, hl.arrivals, harrival]
    simp
  events := by
    rw [filterMap_append_one, filterMap_append_one, hl.events, List.flatten_append, List.append_nil, List.append_assoc,
      hevents]
    cases o'.events <;> simp
  popped := fun p => by
    rw [flatMap_append_one, flatMap_append_one, hl.popped p, ite_self, List.append_nil, List.append_assoc, hpopped p]
  turns := by
    rw [List.countP_append, List.countP_append, hl.turns, List.countP_singleton, List.countP_singleton, hleaves]
    rfl

/-- **What an iteration can do**: a glance at the timer, the end of a call, or a pop, with which an update ends the call. -/
inductive Iterated (sdk : Sdk) (args : Args) (s : PopLoop S H) : PopEvent F → PopLoop S H → Prop
  | looked (elapsedMs : UInt64) (o : MainEvent F) (main : MainLoop S H) (hlog : s.main.place = .log)
      (hturn : s.main.turn sdk args elapsedMs = .ok (o, main)) : Iterated sdk args s .left ⟨main, 0⟩
  | ended (hlog : s.main.place ≠ .log)
      (hstop : s.main.unread s.main.place = [] ∨ s.main.place.mayPop s.iterations = false) :
    Iterated sdk args s .left (leave s.main)
  | popped (a : Arrival) (main : MainLoop S H) (event : Event F) (qos : QosState S H) (hpop : s.main.Popped a main)
      (hmay : s.main.place.mayPop s.iterations = true)
      (hturn : main.qos.turn sdk args a.message = .ok (event, qos)) (hgoes : event.breaks = false) :
    Iterated sdk args s (.popped a event) ⟨{ main with qos := qos }, s.iterations + 1⟩
  | broken (a : Arrival) (main : MainLoop S H) (event : Event F) (qos : QosState S H) (hpop : s.main.Popped a main)
      (hturn : main.qos.turn sdk args a.message = .ok (event, qos)) (hbreaks : event.breaks = true) :
    Iterated sdk args s (.popped a event) (leave { main with qos := qos })

theorem iterate_cases {elapsedMs : UInt64} {o : PopEvent F} {s' : PopLoop S H}
    (h : s.iterate sdk args elapsedMs = .ok (o, s')) : Iterated sdk args s o s' := by
  unfold iterate at h
  split at h
  · rename_i hlog
    obtain ⟨⟨o', main⟩, hturn, h⟩ := bind_eq_ok h
    cases h
    exact .looked elapsedMs o' main hlog hturn
  · rename_i hlog
    split at h
    · rename_i hmay
      split at h
      · rename_i hnone
        cases h
        exact .ended hlog (Or.inl (MainLoop.pop_none hnone))
      · rename_i a main hsome
        obtain ⟨⟨event, qos⟩, hturn, h⟩ := bind_eq_ok h
        cases h
        have hpop := MainLoop.pop_some hsome
        cases hevent : event.breaks with
        | true => exact .broken a main event qos hpop hturn hevent
        | false => exact .popped a main event qos hpop hmay hturn hevent
    · rename_i hmay
      cases h
      exact .ended hlog (Or.inr (Bool.not_eq_true _ ▸ hmay))

theorem Linearised.step (hl : Linearised sdk args m₀ h s steps h' m pops events) {st : MainStep} {o : PopEvent F}
    {s' : PopLoop S H} (hstep : s.step sdk args st = .ok (o, s')) :
    ∃ steps' h'' m' pops' events', Linearised sdk args m₀ (h ++ [o]) s' steps' h'' m' pops' events' := by
  cases st with
  | arrive a =>
    cases hstep
    exact ⟨_, _, _, _, _, hl.arrive a⟩
  | turn elapsedMs =>
    cases iterate_cases hstep with
    | looked elapsedMs' o' main hlog hturn =>
      have hlog' : m.place = .log := hl.inCall.place.symm.trans hlog
      -- nothing is popped before the glance, so the call begins here
      have hnone : pops = [] := by
        have hhere := hl.inCall.here
        rw [hlog'] at hhere
        exact (List.append_eq_nil_iff.1 hhere.symm).1
      subst hnone
      obtain ⟨hevents, hqos⟩ := Prod.mk.inj (Except.ok.inj hl.inCall.turns)
      subst hevents
      have hsame : s.main = m := MainLoop.ext_unread hqos.symm hl.inCall.place hl.inCall.lastLog
        (fun p => by rw [hl.inCall.unread p, ite_self, List.nil_append])
      rw [hsame] at hturn
      obtain ⟨⟨window, rfl⟩, -⟩ := MainLoop.turn_log hlog' hturn
      exact ⟨_, _, _, _, _, hl.turn hturn rfl rfl (fun p => by rw [ite_self]; rfl) rfl⟩
    | ended hlog hstop =>
      rw [hl.inCall.place] at hlog hstop
      obtain ⟨call, hturn, hpops⟩ := hl.inCall.ends hlog hstop
      refine ⟨_, _, _, _, _, hl.turn hturn rfl (List.append_nil _) (fun p => ?_) rfl⟩
      simp only [PopEvent.poppedAt, MainEvent.poppedAt, List.append_nil, hpops, eq_comm]
    | popped a main event qos hpop hmay hturn hgoes => exact ⟨_, _, _, _, _, hl.pop hpop hturn hgoes hmay⟩
    | broken a main event qos hpop hturn hbreaks =>
      obtain ⟨call, hcall, hpops⟩ := hl.inCall.breaks hpop hturn hbreaks
      refine ⟨_, _, _, _, _, hl.turn hcall rfl rfl (fun p => ?_) hbreaks⟩
      have ha : a.place = m.place := hpop.arrival.trans hl.inCall.place
      by_cases hp : p = m.place
      · simp [hp, ha, hpops]
      · simp [hp, ha, Ne.symm hp]

theorem linearised_run {steps₀ : List MainStep} (hrun : Runs.run (step sdk args) ⟨m₀, 0⟩ steps₀ = .ok (h, s)) :
    ∃ steps h' m pops events, Linearised sdk args m₀ h s steps h' m pops events :=
  run_hist (fun h s => ∃ steps h' m pops events, Linearised sdk args m₀ h s steps h' m pops events)
    (fun h s st o s' hl hstep => by
      obtain ⟨steps, h', m, pops, events, hl⟩ := hl
      exact hl.step hstep) steps₀ [] ⟨m₀, 0⟩ h s
    ⟨[], [], m₀, [], [], rfl, .start sdk args m₀, rfl, rfl, fun p => (ite_self _).symm, rfl⟩ hrun

theorem arrivals_run : ∀ {steps : List MainStep} {s s' : PopLoop S H} {h : List (PopEvent F)},
    Runs.run (step sdk args) s steps = .ok (h, s') →
    h.filterMap PopEvent.arrival = steps.filterMap MainStep.arrival
  | [], s, s', h, hrun => by
    cases hrun
    rfl
  | st :: steps, s, s', h, hrun => by
    obtain ⟨o, s₁, rest, hstep, hrest, rfl⟩ := run_cons_ok hrun
    have ho : o.arrival = st.arrival := by
      cases st with
      | arrive a =>
        cases hstep
        rfl
      | turn elapsedMs => cases iterate_cases hstep <;> rfl
    rw [List.filterMap_cons, List.filterMap_cons, ho, arrivals_run hrest]

/-! ## Every iteration returns -/

theorem step_ready (hticks : sdk.ticksPerMs ≠ 0) (args : Args) (hs : s.main.Ready) {st : MainStep} (hst : st.deliverable) :
    ∃ o s', s.step sdk args st = .ok (o, s') ∧ s'.main.Ready := by
  cases st with
  | arrive a =>
    obtain ⟨o, m, hstep, hm⟩ := hs.step hticks args hst
    cases hstep
    exact ⟨_, _, rfl, hm⟩
  | turn elapsedMs =>
    show ∃ o s', s.iterate sdk args elapsedMs = .ok (o, s') ∧ s'.main.Ready
    unfold iterate
    split
    · obtain ⟨o, m, hstep, hm⟩ := hs.step hticks args (show (MainStep.turn elapsedMs).deliverable from trivial)
      have hturn : s.main.turn sdk args elapsedMs = .ok (o, m) := hstep
      rw [hturn, ok_bind]
      exact ⟨_, _, rfl, hm⟩
    · split
      · split
        · exact ⟨_, _, rfl, hs.qos, hs.failed⟩
        · rename_i a main hsome
          have hpop := MainLoop.pop_some hsome
          have hqos : main.qos.Ready := by
            rw [hpop.qos]
            exact hs.qos
          have hmessage : ∀ packet, a.message = .sigverifyFailed packet → packet.fromIpv4 := by
            intro packet hpacket
            have ha : a = .failed packet := by cases a <;> cases hpacket; rfl
            subst ha
            have hmem : .failed packet ∈ s.main.unread .failed := by
              rw [show Place.failed = s.main.place from hpop.arrival, hpop.first]
              exact List.mem_cons_self
            exact hs.failed packet (MainLoop.mem_failed.1 hmem)
          have hfailed : ∀ packet ∈ main.failed, packet.fromIpv4 := fun packet hpacket =>
            hs.failed packet (MainLoop.mem_failed.1 (hpop.subset .failed (MainLoop.mem_failed.2 hpacket)))
          obtain ⟨event, qos, hturn⟩ := hqos.turn_ok hticks args hmessage
          rw [hturn, ok_bind]
          have hnext := hqos.turn hticks hturn
          refine ⟨_, _, rfl, ?_⟩
          split
          · exact ⟨hnext, hfailed⟩
          · exact ⟨hnext, hfailed⟩
      · exact ⟨_, _, rfl, hs.qos, hs.failed⟩

/-- **The pops of the loop act as its whole calls.**  However the pops and the arrivals interleave, every iteration
returns, and the loop of whole calls has a run with the same arrivals in the same order in which the turns of the
messages are the same ones: it ends where the call that the loop is in begins, and the messages that this call has popped
lead from there to the loop's state.  A call on packets has popped at most a thousand of them. -/
theorem pops_linearise (sdk : Sdk) (hticks : sdk.ticksPerMs ≠ 0) (args : Args) (steps : List MainStep)
    (hsteps : ∀ st ∈ steps, st.deliverable) :
    ∃ h s, Runs.run (step sdk args) (⟨.init sdk args, 0⟩ : PopLoop S H) steps = .ok (h, s) ∧
      ∃ steps' h' m pops events, Runs.run (MainLoop.step sdk args) (.init sdk args) steps' = .ok (h', m) ∧
        steps'.filterMap MainStep.arrival = steps.filterMap MainStep.arrival ∧
        h.filterMap PopEvent.event = (h'.filterMap MainEvent.events).flatten ++ events ∧
        (m.place = s.main.place ∧ ∀ p, m.unread p = (if p = m.place then pops else []) ++ s.main.unread p) ∧
        Runs.run (QosState.turn sdk args) m.qos (pops.map Arrival.message) = .ok (events, s.main.qos) ∧
        pops.length = s.iterations ∧ ∀ channel, m.place = .packets channel → s.iterations ≤ 1000 := by
  obtain ⟨h, s, hrun, -⟩ := run_total MainStep.deliverable (fun s : PopLoop S H => s.main.Ready)
    (fun s st hst hs => step_ready hticks args hs hst) steps ⟨.init sdk args, 0⟩ hsteps (MainLoop.ready_init sdk args)
  obtain ⟨steps', h', m, pops, events, hl⟩ := linearised_run hrun
  exact ⟨h, s, hrun, steps', h', m, pops, events, hl.run, hl.arrivals.trans (arrivals_run hrun), hl.events,
    ⟨hl.inCall.place.symm, hl.inCall.unread⟩, hl.inCall.turns, hl.inCall.iterations, hl.inCall.limited⟩

/-- Two signatures arrive, the second while the call on the first is running, and the loop goes to its end. -/
theorem pops_linearise_between :
    ∃ (h : List (PopEvent ℚ)) (s : PopLoop sortedTree scoreHeap),
      Runs.run (step steadySdk ⟨16, 16, 1000⟩) ⟨.init steadySdk ⟨16, 16, 1000⟩, 0⟩
        (.arrive (.signature (.replicate 64 1)) :: List.replicate 5 (.turn 0) ++
          .arrive (.signature (.replicate 64 2)) :: List.replicate 2 (.turn 0)) = .ok (h, s) ∧
      ∃ (steps' : List MainStep) (h' : List (MainEvent ℚ)) (m : MainLoop sortedTree scoreHeap),
        Runs.run (MainLoop.step steadySdk ⟨16, 16, 1000⟩) (.init steadySdk ⟨16, 16, 1000⟩) steps' = .ok (h', m) ∧
        steps'.filterMap MainStep.arrival = [.signature (.replicate 64 1), .signature (.replicate 64 2)] := by
  obtain ⟨h, s, hrun, steps', h', m, pops, events, hrun', harrivals, -⟩ :=
    pops_linearise (S := sortedTree) (H := scoreHeap) steadySdk (by decide) ⟨16, 16, 1000⟩
      (.arrive (.signature (.replicate 64 1)) :: List.replicate 5 (.turn 0) ++
        .arrive (.signature (.replicate 64 2)) :: List.replicate 2 (.turn 0)) (by
      intro st hst
      simp only [List.cons_append, List.mem_cons, List.mem_append, List.mem_replicate] at hst
      rcases hst with rfl | ⟨-, rfl⟩ | rfl | ⟨-, rfl⟩ <;> trivial)
  exact ⟨h, s, hrun, steps', h', m, hrun', harrivals⟩

/-! ## No channel waits for another -/

omit [Zero F] [One F] [Add F] [Sub F] [Mul F] [Div F] [NatCast F] [OfScientific F] in
theorem waiting_arrive (m : MainLoop S H) (a : Arrival) : (m.arrive a).waiting = m.waiting + 1 := by
  unfold MainLoop.waiting
  simp only [MainLoop.unread_arrive, List.length_append, Finset.sum_add_distrib]
  congr 1
  have hlen : ∀ p, (if a.place = p then [a] else []).length = if a.place = p then 1 else 0 := by
    intro p
    split <;> rfl
  simp only [hlen, Finset.sum_ite_eq, Finset.mem_univ, if_true]

omit [Zero F] [One F] [Add F] [Sub F] [Mul F] [Div F] [NatCast F] [OfScientific F] in
theorem waiting_popped {m m' : MainLoop S H} {a : Arrival} (h : m.Popped a m') : m.waiting = m'.waiting + 1 := by
  unfold MainLoop.waiting
  have hlen : ∀ p, (m.unread p).length = (m'.unread p).length + if m.place = p then 1 else 0 := by
    intro p
    by_cases hp : m.place = p
    · subst hp
      rw [h.first, if_pos rfl, List.length_cons]
    · rw [if_neg hp, h.others p (Ne.symm hp), Nat.add_zero]
  simp only [hlen, Finset.sum_add_distrib, Finset.sum_ite_eq, Finset.mem_univ, if_true]

theorem turns_run : ∀ {steps : List MainStep} {s s' : PopLoop S H} {h : List (PopEvent F)},
    Runs.run (step sdk args) s steps = .ok (h, s') →
    steps.countP MainStep.isTurn + s'.main.waiting ≤
      s.main.waiting + (steps.filterMap MainStep.arrival).length + h.countP PopEvent.leaves
  | [], s, s', h, hrun => by
    cases hrun
    simp
  | st :: steps, s, s', h, hrun => by
    obtain ⟨o, s₁, rest, hstep, hrest, rfl⟩ := run_cons_ok hrun
    have ih := turns_run hrest
    cases st with
    | arrive a =>
      cases hstep
      have hone : (s.main.arrive a).waiting = s.main.waiting + 1 := waiting_arrive s.main a
      rw [List.countP_cons_of_neg (by simp [MainStep.isTurn]), List.countP_cons_of_neg (by simp),
        List.filterMap_cons_some (show (MainStep.arrive a).arrival = some a from rfl), List.length_cons]
      dsimp only at ih
      omega
    | turn elapsedMs =>
      have hone : s₁.main.waiting + 1 ≤ s.main.waiting + if o.leaves then 1 else 0 := by
        cases iterate_cases hstep with
        | looked elapsedMs' o' main hlog hturn =>
          obtain ⟨-, hsame⟩ := MainLoop.turn_log hlog hturn
          exact Nat.succ_le_succ (Finset.sum_le_sum fun p _ => by rw [hsame p])
        | ended hlog hstop => exact Nat.le_refl _
        | popped a main event qos hpop hmay hturn hgoes =>
          rw [waiting_popped hpop]
          exact Nat.le_add_right _ _
        | broken a main event qos hpop hturn hbreaks =>
          rw [waiting_popped hpop]
          exact Nat.le_add_right _ _
      rw [List.countP_cons_of_pos rfl, List.countP_cons,
        List.filterMap_cons_none (show (MainStep.turn elapsedMs).arrival = none from rfl)]
      omega

/-- **No channel waits for another.**  From any state at the start of a call, and whatever arrives: when the loop has made
as many iterations as there were messages to read and eight more for each of `rounds`, a channel of packets has given its
first thousand packets for each of them, the remaining metas one for each, and the others all that they had. -/
theorem pops_serve (sdk : Sdk) (args : Args) (steps : List MainStep) (m₀ : MainLoop S H) (h : List (PopEvent F))
    (s : PopLoop S H) (hrun : Runs.run (step sdk args) ⟨m₀, 0⟩ steps = .ok (h, s)) (rounds : Nat)
    (hmany : m₀.waiting + (steps.filterMap MainStep.arrival).length + 8 * rounds ≤ steps.countP MainStep.isTurn)
    (p : Place) :
    (m₀.unread p).take (p.served rounds (m₀.unread p).length) <+: h.flatMap (PopEvent.poppedAt p) := by
  obtain ⟨steps', h', m, pops, events, hl⟩ := linearised_run hrun
  have hturns := turns_run hrun
  have hcalls : 8 * rounds ≤ steps'.countP MainStep.isTurn := by
    rw [hl.turns]
    dsimp only at hturns
    omega
  refine (MainLoop.run_serves hl.run p hcalls).trans ?_
  rw [hl.popped p]
  exact List.prefix_append _ _

/-- Three packets in three channels, and eleven iterations. -/
theorem pops_serve_three :
    ∃ (h : List (PopEvent ℚ)) (s : PopLoop sortedTree scoreHeap),
      Runs.run (step steadySdk ⟨16, 16, 1000⟩) ⟨{ MainLoop.init steadySdk ⟨16, 16, 1000⟩ with
          packets := fun channel => if channel = 3 then [] else [signedPacket ⟨#v[1, 2, 3, 4]⟩ channel] }, 0⟩
        (List.replicate 11 (.turn 0)) = .ok (h, s) ∧
      [Arrival.packet 2 (signedPacket ⟨#v[1, 2, 3, 4]⟩ 2)] <+: h.flatMap (PopEvent.poppedAt (.packets 2)) := by
  have hticks : steadySdk.ticksPerMs ≠ 0 := by decide
  obtain ⟨h, s, hrun, -⟩ := run_total MainStep.deliverable (fun s : PopLoop sortedTree scoreHeap => s.main.Ready)
    (fun s st hst hs => step_ready hticks ⟨16, 16, 1000⟩ hs hst)
    (List.replicate 11 (.turn 0)) ⟨{ MainLoop.init steadySdk ⟨16, 16, 1000⟩ with
      packets := fun channel => if channel = 3 then [] else [signedPacket ⟨#v[1, 2, 3, 4]⟩ channel] }, 0⟩
    (fun st hst => by rw [(List.mem_replicate.1 hst).2]; trivial) ⟨(MainLoop.ready_init _ _).qos, nofun⟩
  exact ⟨h, s, hrun, pops_serve steadySdk _ _ _ _ _ hrun 1 (Nat.le_refl 11) (.packets 2)⟩

theorem fed_once (sdk : Sdk) (args : Args) {p : Place} (hp : p = .signatures ∨ p = .failed) {s : PopLoop S H}
    (hplace : s.main.place = p) (hempty : s.main.unread p = []) {a : Arrival} (ha : a.place = p)
    (hdeliverable : (MainStep.arrive a).deliverable) :
    ∃ (h : List (PopEvent F)) (s' : PopLoop S H), Runs.run (step sdk args) s [.arrive a, .turn 0] = .ok (h, s') ∧
      s'.main.place = p ∧ s'.iterations = s.iterations + 1 ∧ ∀ p', s'.main.unread p' = s.main.unread p' := by
  have hplace₁ : (s.main.arrive a).place = p := by cases a <;> exact hplace
  have hunread : ∀ p', (s.main.arrive a).unread p' = s.main.unread p' ++ if p = p' then [a] else [] := by
    intro p'
    rw [MainLoop.unread_arrive, ha]
  have hlog : (s.main.arrive a).place ≠ .log := by
    rw [hplace₁]
    rcases hp with rfl | rfl <;> simp
  have hmay : (s.main.arrive a).place.mayPop s.iterations = true := by
    rw [hplace₁]
    rcases hp with rfl | rfl <;> rfl
  obtain ⟨main, hsome⟩ : ∃ main, (s.main.arrive a).pop = some (a, main) := by
    cases hpop : (s.main.arrive a).pop with
    | none =>
      have hnone := MainLoop.pop_none hpop
      rw [hplace₁, hunread, hempty, if_pos rfl] at hnone
      cases hnone
    | some r =>
      have hfirst := (MainLoop.pop_some hpop).first
      rw [hplace₁, hunread, hempty, if_pos rfl] at hfirst
      exact ⟨r.2, by rw [(List.cons.inj hfirst).1]⟩
  have hpop := MainLoop.pop_some hsome
  obtain ⟨event, qos, hturn, hgoes⟩ : ∃ event qos, main.qos.turn sdk args a.message = .ok (event, qos) ∧
      event.breaks = false := by
    cases a with
    | signature signature => exact ⟨_, _, rfl, rfl⟩
    | failed packet =>
      obtain ⟨ipv4, haddr⟩ := hdeliverable
      have hturn : main.qos.sigverifyTurn packet = .ok (.sigverifyFailed packet,
          { main.qos with model := main.qos.model.ipFeedback (u32FromLeBytes ipv4.octets) }) := by
        unfold QosState.sigverifyTurn processFailedSigverify
        rw [haddr]
        rfl
      exact ⟨_, _, hturn, rfl⟩
    | _ => rcases hp with rfl | rfl <;> cases ha
  refine ⟨[.arrived a, .popped a event], ⟨{ main with qos := qos }, s.iterations + 1⟩, ?_, hpop.place.trans hplace₁, rfl,
    fun p' => ?_⟩
  · have hiterate : PopLoop.iterate sdk args ⟨s.main.arrive a, s.iterations⟩ 0 =
        .ok (.popped a event, ⟨{ main with qos := qos }, s.iterations + 1⟩) := by
      unfold iterate
      simp only [hlog, hmay, hsome, hturn, ok_bind, hgoes, if_true, if_false]
      rfl
    have harrive : Runs.run (step sdk args) s [.arrive a] = .ok ([.arrived a], ⟨s.main.arrive a, s.iterations⟩) := rfl
    exact run_append harrive (run_one hiterate)
  · show main.unread p' = _
    by_cases hp' : p = p'
    · subst hp'
      have hfirst := hpop.first
      rw [hplace₁, hunread, hempty, if_pos rfl] at hfirst
      rw [hempty]
      exact (List.cons.inj hfirst).2.symm
    · rw [hpop.others p' (by rw [hplace₁]; exact Ne.symm hp'), hunread, if_neg hp', List.append_nil]

/-- **A call without a bound does not end while it is fed.**  Where signatures or reports arrive as fast as the loop pops
them, it stays at their channel, however many they are, and reads nothing of the other channels. -/
theorem fed_call_stays (sdk : Sdk) (args : Args) (p : Place) (hp : p = .signatures ∨ p = .failed) :
    ∀ (arrivals : List Arrival) (s : PopLoop S H), (∀ a ∈ arrivals, a.place = p ∧ (MainStep.arrive a).deliverable) →
      s.main.place = p → s.main.unread p = [] →
      ∃ (h : List (PopEvent F)) (s' : PopLoop S H),
        Runs.run (step sdk args) s (arrivals.flatMap fun a => [.arrive a, .turn 0]) = .ok (h, s') ∧
          s'.main.place = p ∧ s'.iterations = s.iterations + arrivals.length ∧
          ∀ p', s'.main.unread p' = s.main.unread p'
  | [], s, hall, hplace, hempty => ⟨[], s, rfl, hplace, rfl, fun p' => rfl⟩
  | a :: arrivals, s, hall, hplace, hempty => by
    obtain ⟨⟨ha, hdeliverable⟩, hrest⟩ := List.forall_mem_cons.1 hall
    obtain ⟨h₁, s₁, hrun₁, hplace₁, hiterations₁, hunread₁⟩ := fed_once sdk args hp hplace hempty ha hdeliverable
    obtain ⟨h₂, s₂, hrun₂, hplace₂, hiterations₂, hunread₂⟩ :=
      fed_call_stays sdk args p hp arrivals s₁ hrest hplace₁ ((hunread₁ p).trans hempty)
    refine ⟨h₁ ++ h₂, s₂, run_append hrun₁ hrun₂, hplace₂, ?_, fun p' => (hunread₂ p').trans (hunread₁ p')⟩
    rw [hiterations₂, hiterations₁, List.length_cons]
    omega

/-- A packet waits while a thousand signatures are read. -/
theorem fed_call_stays_thousand :
    ∃ (h : List (PopEvent ℚ)) (s : PopLoop sortedTree scoreHeap),
      Runs.run (step steadySdk ⟨16, 16, 1000⟩) ⟨{ MainLoop.init steadySdk ⟨16, 16, 1000⟩ with
          packets := fun _ => [signedPacket ⟨#v[1, 2, 3, 4]⟩ 0], place := .signatures }, 0⟩
        ((List.replicate 1000 (Arrival.signature (.replicate 64 1))).flatMap fun a => [.arrive a, .turn 0]) =
          .ok (h, s) ∧
      s.iterations = 1000 ∧ s.main.unread (.packets 0) = [.packet 0 (signedPacket ⟨#v[1, 2, 3, 4]⟩ 0)] := by
  obtain ⟨h, s, hrun, -, hiterations, hunread⟩ := fed_call_stays (S := sortedTree) (H := scoreHeap) steadySdk
    ⟨16, 16, 1000⟩ .signatures (Or.inl rfl) (List.replicate 1000 (.signature (.replicate 64 1)))
    ⟨{ MainLoop.init steadySdk ⟨16, 16, 1000⟩ with
      packets := fun _ => [signedPacket ⟨#v[1, 2, 3, 4]⟩ 0], place := .signatures }, 0⟩
    (fun a ha => by rw [(List.mem_replicate.1 ha).2]; exact ⟨rfl, trivial⟩) rfl rfl
  rw [List.length_replicate] at hiterations
  exact ⟨h, s, hrun, hiterations, hunread (.packets 0)⟩

end PopLoop

end Calls

end Qos
