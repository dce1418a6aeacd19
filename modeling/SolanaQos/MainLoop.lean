import SolanaQos.LoopTransmit
/-!
# The main loop (`main` in `qos/src/main.rs`)

The body of the loop calls the four consumers of transaction packets in turn, then the one of recent signatures, logs
when a new five seconds have begun, and calls the consumers of remaining metas and of sigverify signals.  `Place` is
where the loop is in its body.  Messages arrive in the seven channels, at any time between two calls; what a channel
loses never arrives.

Here a call is one step, and messages arrive between the calls; `MainPops` lets them arrive between the pops of a call.
What the loop does to the state of qos is then a run of the calls that the other modules are about, and each of them
applies.  `Follows` says how a later state follows from an earlier one:
* the calls between them make a run of their own;
* for every channel, what was popped of it and what is unread in it are together what was there and what arrived, in
  this order;
* the log lines in between are for different five seconds.

A turn of the loop pops what its call takes, and the rest stays (`Follows.turn`).  A call on packets takes a thousand
at most, a call on remaining metas stops after an update.

Every turn returns where the reports are about packets from IPv4 sources (`MainStep.deliverable`), as all that qos
transmits are.  `main_refines_calls` puts this together.  At the end, how long a channel waits: eight turns go once
around, and in `n` rounds a channel of packets has given a thousand times `n` of them, or all it had (`run_serves`).
-/
namespace Qos

open Runs

/-- The places of the body; the transaction channels are `tpu`, `fwd`, `re1` and `re2`. -/
inductive Place
  | packets (channel : Fin 4)
  | signatures
  | log
  | metas
  | failed
  deriving DecidableEq, Fintype

def Place.next : Place → Place
  | .packets channel => if channel.val < 3 then .packets (channel + 1) else .signatures
  | .signatures => .log
  | .log => .metas
  | .metas => .failed
  | .failed => .packets 0

inductive Arrival
  | packet (channel : Fin 4) (packet : Packet)
  | signature (signature : Signature)
  | remainingMeta (remainingMeta : QoSRemainingMeta)
  | failed (packet : Packet)

def Arrival.place : Arrival → Place
  | .packet channel _ => .packets channel
  | .signature _ => .signatures
  | .remainingMeta _ => .metas
  | .failed _ => .failed

variable {S : Sokoban} {F : Type} [LinearOrder F] {H : HeapCrate (ScoredTransaction F)}

/-- The state of qos, what is unread in its channels, and where the loop is. -/
structure MainLoop (S : Sokoban) {F : Type} [LinearOrder F] (H : HeapCrate (ScoredTransaction F)) where
  qos : QosState S H
  packets : Fin 4 → List Packet := fun _ => []
  signatures : List Signature := []
  metas : List QoSRemainingMeta := []
  failed : List Packet := []
  place : Place := .packets 0
  lastLog : UInt64 := 0

inductive MainStep
  | arrive (arrival : Arrival)
  | turn (elapsedMs : UInt64)

def MainStep.isTurn : MainStep → Bool
  | .arrive _ => false
  | .turn _ => true

/-- A reported packet has an IPv4 source, as all that qos transmits. -/
def MainStep.deliverable : MainStep → Prop
  | .arrive (.failed p) => p.fromIpv4
  | _ => True

inductive MainEvent (F : Type)
  | arrived (arrival : Arrival)
  | called (place : Place) (call : Call) (events : List (Event F))
  | logged (window : Option UInt64)

namespace MainLoop

def init (sdk : Sdk) (args : Args) : MainLoop S H := { qos := QosState.init sdk args }

def arrive (m : MainLoop S H) : Arrival → MainLoop S H
  | .packet channel packet => { m with packets := Function.update m.packets channel (m.packets channel ++ [packet]) }
  | .signature signature => { m with signatures := m.signatures ++ [signature] }
  | .remainingMeta remainingMeta => { m with metas := m.metas ++ [remainingMeta] }
  | .failed packet => { m with failed := m.failed ++ [packet] }

section Steps

variable [Zero F] [One F] [Add F] [Sub F] [Mul F] [Div F] [NatCast F] [OfScientific F]

def turn (sdk : Sdk) (args : Args) (m : MainLoop S H) (elapsedMs : UInt64) : Except Panic (MainEvent F × MainLoop S H) :=
  match m.place with
  | .packets channel => do
    let pops := m.packets channel
    let (events, qos) ← m.qos.consumeTransactionPackets sdk pops
    return (.called m.place (.transactionPackets (pops.take 1000)) events, { m with
      qos := qos
      packets := Function.update m.packets channel (pops.drop 1000)
      place := m.place.next })
  | .signatures => do
    let (events, qos) ← m.qos.consumeRecentSignatures m.signatures
    return (.called m.place (.recentSignatures m.signatures) events,
      { m with qos := qos, signatures := [], place := m.place.next })
  | .log =>
    let elapsed5s := elapsedMs / 5000
    if m.lastLog < elapsed5s then
      return (.logged (some elapsed5s), { m with lastLog := elapsed5s, place := m.place.next })
    else
      return (.logged none, { m with place := m.place.next })
  | .metas => do
    let (events, qos) ← m.qos.consumeRemainingMetas args m.metas
    -- one event for each meta that was popped
    return (.called m.place (.remainingMetas (m.metas.take events.length)) events,
      { m with qos := qos, metas := m.metas.drop events.length, place := m.place.next })
  | .failed => do
    let (events, qos) ← m.qos.consumeSigverifySignals m.failed
    return (.called m.place (.sigverifySignals m.failed) events,
      { m with qos := qos, failed := [], place := m.place.next })

def step (sdk : Sdk) (args : Args) (m : MainLoop S H) : MainStep → Except Panic (MainEvent F × MainLoop S H)
  | .arrive arrival => return (.arrived arrival, m.arrive arrival)
  | .turn elapsedMs => m.turn sdk args elapsedMs

end Steps

/-! ## The channels -/

def unread (m : MainLoop S H) : Place → List Arrival
  | .packets channel => (m.packets channel).map (.packet channel)
  | .signatures => m.signatures.map .signature
  | .log => []
  | .metas => m.metas.map .remainingMeta
  | .failed => m.failed.map .failed

theorem unread_update (m : MainLoop S H) (channel : Fin 4) (packets : List Packet) {p : Place}
    (hp : p ≠ .packets channel) :
    { m with packets := Function.update m.packets channel packets }.unread p = m.unread p := by
  cases p with
  | packets channel' =>
    have hne : channel' ≠ channel := fun he => hp (congrArg Place.packets he)
    simp [unread, hne]
  | _ => rfl

end MainLoop

def Place.popped : Place → Call → List Arrival
  | .packets channel, .transactionPackets pops => pops.map (.packet channel)
  | .signatures, .recentSignatures pops => pops.map .signature
  | .metas, .remainingMetas pops => pops.map .remainingMeta
  | .failed, .sigverifySignals pops => pops.map .failed
  | _, _ => []

/-- How much of `len` messages `visits` turns at a place pop at least: a thousand packets a turn, one meta a turn since an
update ends the call, and all of the others. -/
def Place.served : Place → Nat → Nat → Nat
  | .packets _, visits, len => min (1000 * visits) len
  | .metas, visits, len => min visits len
  | _, 0, _ => 0
  | _, _ + 1, len => len

namespace MainEvent

@[simp] def place : MainEvent F → Option Place
  | .arrived _ => none
  | .called place _ _ => some place
  | .logged _ => some .log

@[simp] def arrivedAt (p : Place) : MainEvent F → List Arrival
  | .arrived arrival => if arrival.place = p then [arrival] else []
  | .called _ _ _ => []
  | .logged _ => []

@[simp] def poppedAt (p : Place) : MainEvent F → List Arrival
  | .arrived _ => []
  | .called place call _ => if place = p then place.popped call else []
  | .logged _ => []

@[simp] def call : MainEvent F → Option Call
  | .arrived _ => none
  | .called _ call _ => some call
  | .logged _ => none

@[simp] def events : MainEvent F → Option (List (Event F))
  | .arrived _ => none
  | .called _ _ events => some events
  | .logged _ => none

@[simp] def window : MainEvent F → Option UInt64
  | .arrived _ => none
  | .called _ _ _ => none
  | .logged window => window

end MainEvent

/-! ## What a turn can do -/

section Turns

variable [Zero F] [One F] [Add F] [Sub F] [Mul F] [Div F] [NatCast F] [OfScientific F]

omit [Zero F] in
/-- **How far a call on remaining metas comes**: each event is for one popped meta, the first meta is popped in any case,
and the metas behind the last popped one make no difference. -/
theorem QosState.consumeRemainingMetas_popped {args : Args} : ∀ (ms : List QoSRemainingMeta) {q q' : QosState S H}
    {events : List (Event F)}, q.consumeRemainingMetas args ms = .ok (events, q') →
    q.consumeRemainingMetas args (ms.take events.length) = .ok (events, q') ∧ min 1 ms.length ≤ events.length
  | [], q, q', events, h => by
    cases h
    exact ⟨rfl, Nat.le_refl _⟩
  | m :: ms, q, q', events, h => by
    rw [consumeRemainingMetas] at h
    obtain ⟨⟨event, q₁⟩, h₁, h⟩ := bind_eq_ok h
    simp only at h
    split at h
    · cases h
      refine ⟨?_, by simp⟩
      simp only [List.length_singleton, List.take_succ_cons, List.take_zero, consumeRemainingMetas, h₁, ok_bind]
      rfl
    · obtain ⟨⟨rest, q₂⟩, h₂, h⟩ := bind_eq_ok h
      cases h
      obtain ⟨htake, -⟩ := consumeRemainingMetas_popped ms h₂
      refine ⟨?_, by simp⟩
      rw [List.length_cons, List.take_succ_cons, consumeRemainingMetas, h₁, ok_bind]
      simp only
      rw [htake]
      rfl

namespace MainLoop

/-- **What a turn can do**: one of the four kinds of calls, with what it pops, or a glance at the timer. -/
inductive Turned (sdk : Sdk) (args : Args) (m : MainLoop S H) : MainEvent F → MainLoop S H → Prop
  | called (call : Call) (events : List (Event F)) (m' : MainLoop S H)
      (hcall : m.qos.call sdk args call = .ok (events, m'.qos))
      (hpops : m.unread m.place = m.place.popped call ++ m'.unread m.place)
      (henough : m.place.served 1 (m.unread m.place).length ≤ (m.place.popped call).length)
      (hothers : ∀ p, p ≠ m.place → m'.unread p = m.unread p) (hplace : m'.place = m.place.next)
      (hlog : m'.lastLog = m.lastLog) : Turned sdk args m (.called m.place call events) m'
  | logged (window : UInt64) (hplace : m.place = .log) (hnew : m.lastLog < window) :
    Turned sdk args m (.logged (some window)) { m with lastLog := window, place := m.place.next }
  | quiet (hplace : m.place = .log) : Turned sdk args m (.logged none) { m with place := m.place.next }

theorem turn_cases {sdk : Sdk} {args : Args} {m m' : MainLoop S H} {elapsedMs : UInt64} {o : MainEvent F}
    (h : m.turn sdk args elapsedMs = .ok (o, m')) : Turned sdk args m o m' := by
  unfold turn at h
  split at h
  · rename_i channel hplace
    obtain ⟨⟨events, qos⟩, hcall, h⟩ := bind_eq_ok h
    cases h
    refine .called _ _ _ ?_ ?_ ?_ ?_ rfl rfl
    · show run (QosState.packetTurn sdk) m.qos (((m.packets channel).take 1000).take 1000) = _
      rw [List.take_take, Nat.min_self]
      exact hcall
    · simp [hplace, unread, Place.popped]
    · simp [hplace, unread, Place.popped, Place.served]
    · intro p hp
      exact unread_update m channel _ (by rwa [hplace] at hp)
  · rename_i hplace
    obtain ⟨⟨events, qos⟩, hcall, h⟩ := bind_eq_ok h
    cases h
    refine .called _ _ _ hcall ?_ ?_ ?_ rfl rfl
    · simp [hplace, unread, Place.popped]
    · simp [hplace, unread, Place.popped, Place.served]
    · intro p hp
      cases p with
      | signatures => exact absurd hplace.symm hp
      | _ => rfl
  · rename_i hplace
    simp only at h
    split at h
    · rename_i hnew
      cases h
      exact .logged _ hplace hnew
    · cases h
      exact .quiet hplace
  · rename_i hplace
    obtain ⟨⟨events, qos⟩, hcall, h⟩ := bind_eq_ok h
    cases h
    obtain ⟨htake, hone⟩ := QosState.consumeRemainingMetas_popped m.metas hcall
    refine .called _ _ _ htake ?_ ?_ ?_ rfl rfl
    · simp [hplace, unread, Place.popped]
    · simp only [hplace, unread, Place.popped, Place.served, List.length_map, List.length_take]
      omega
    · intro p hp
      cases p with
      | metas => exact absurd hplace.symm hp
      | _ => rfl
  · rename_i hplace
    obtain ⟨⟨events, qos⟩, hcall, h⟩ := bind_eq_ok h
    cases h
    refine .called _ _ _ hcall ?_ ?_ ?_ rfl rfl
    · simp [hplace, unread, Place.popped]
    · simp [hplace, unread, Place.popped, Place.served]
    · intro p hp
      cases p with
      | failed => exact absurd hplace.symm hp
      | _ => rfl

/-! ## The loop is a run of calls -/

omit [Zero F] [One F] [Add F] [Sub F] [Mul F] [Div F] [NatCast F] [OfScientific F] in
theorem unread_arrive (m : MainLoop S H) (a : Arrival) (p : Place) :
    (m.arrive a).unread p = m.unread p ++ if a.place = p then [a] else [] := by
  cases a with
  | packet channel packet =>
    cases p with
    | packets channel' =>
      by_cases hc : channel = channel'
      · subst hc
        simp [arrive, unread, Arrival.place]
      · simp [arrive, unread, Arrival.place, hc, Ne.symm hc]
    | _ => simp [arrive, unread, Arrival.place]
  | signature signature => cases p <;> simp [arrive, unread, Arrival.place]
  | remainingMeta remainingMeta => cases p <;> simp [arrive, unread, Arrival.place]
  | failed packet => cases p <;> simp [arrive, unread, Arrival.place]

/-- **From a state to a later one**: the calls between them make a run of their own, every channel gave its messages in the
order they came, and the log lines are for later and later windows. -/
structure Follows (sdk : Sdk) (args : Args) (m₀ : MainLoop S H) (h : List (MainEvent F)) (m : MainLoop S H) : Prop where
  calls : run (QosState.call sdk args) m₀.qos (h.filterMap MainEvent.call) = .ok (h.filterMap MainEvent.events, m.qos)
  order : ∀ p, m₀.unread p ++ h.flatMap (MainEvent.arrivedAt p) = h.flatMap (MainEvent.poppedAt p) ++ m.unread p
  served : ∀ p, p.served ((h.filterMap MainEvent.place).count p) (m₀.unread p).length ≤
    (h.flatMap (MainEvent.poppedAt p)).length
  windows : (h.filterMap MainEvent.window).Pairwise (· < ·) ∧ ∀ w ∈ h.filterMap MainEvent.window, w ≤ m.lastLog
  places : ∃ k, h.filterMap MainEvent.place = List.iterate Place.next m₀.place k ∧ m.place = Place.next^[k] m₀.place

theorem Follows.refl (sdk : Sdk) (args : Args) (m : MainLoop S H) : Follows sdk args m [] m where
  calls := rfl
  order := fun p => (List.append_nil _)
  served := fun p => by cases p <;> simp [Place.served]
  windows := ⟨List.Pairwise.nil, by simp⟩
  places := ⟨0, rfl, rfl⟩

end MainLoop

omit [LinearOrder F] [Zero F] [One F] [Add F] [Sub F] [Mul F] [Div F] [NatCast F] [OfScientific F] in
theorem Place.served_succ {p : Place} {visits len before now left : Nat} (h : p.served visits len ≤ before)
    (hleft : len ≤ before + left) (hnow : p.served 1 left ≤ now) : p.served (visits + 1) len ≤ before + now := by
  cases p with
  | packets channel =>
    simp only [Place.served] at *
    omega
  | metas =>
    simp only [Place.served] at *
    omega
  | signatures => exact le_trans hleft (Nat.add_le_add_left hnow _)
  | log => exact le_trans hleft (Nat.add_le_add_left hnow _)
  | failed => exact le_trans hleft (Nat.add_le_add_left hnow _)

namespace MainLoop

theorem Follows.arrive {sdk : Sdk} {args : Args} {m₀ m : MainLoop S H} {h : List (MainEvent F)}
    (hf : m₀.Follows sdk args h m) (a : Arrival) : m₀.Follows sdk args (h ++ [.arrived a]) (m.arrive a) := by
  have hqos : (m.arrive a).qos = m.qos := by cases a <;> rfl
  have hlog : (m.arrive a).lastLog = m.lastLog := by cases a <;> rfl
  have hplace : (m.arrive a).place = m.place := by cases a <;> rfl
  refine ⟨?_, fun p => ?_, fun p => ?_, ?_, ?_⟩
  · rw [filterMap_append_one, filterMap_append_one, hqos]
    simpa using hf.calls
  · rw [flatMap_append_one, flatMap_append_one, unread_arrive, ← List.append_assoc, hf.order p]
    simp
  · rw [filterMap_append_one, flatMap_append_one]
    simpa using hf.served p
  · rw [filterMap_append_one, hlog]
    simpa using hf.windows
  · rw [filterMap_append_one, hplace]
    simpa using hf.places

theorem Follows.turn {sdk : Sdk} {args : Args} {m₀ m m' : MainLoop S H} {h : List (MainEvent F)} {o : MainEvent F}
    (hf : m₀.Follows sdk args h m) (ht : Turned sdk args m o m') : m₀.Follows sdk args (h ++ [o]) m' := by
  obtain ⟨k, hplaces, hplace⟩ := hf.places
  -- the place that the turn adds to the sequence
  have hnext : h.filterMap MainEvent.place ++ [m.place] = List.iterate Place.next m₀.place (k + 1) ∧
      m.place.next = Place.next^[k + 1] m₀.place := by
    rw [List.iterate_add, hplaces, hplace, Function.iterate_succ_apply']
    exact ⟨rfl, rfl⟩
  have hlen : ∀ p, (m₀.unread p).length ≤ (h.flatMap (MainEvent.poppedAt p)).length + (m.unread p).length := by
    intro p
    rw [← List.length_append, ← hf.order p, List.length_append]
    exact Nat.le_add_right _ _
  -- a glance at the timer is a turn too, where nothing is unread
  have hglance : ∀ p, p.served ((h.filterMap MainEvent.place ++ [Place.log]).count p) (m₀.unread p).length ≤
      (h.flatMap (MainEvent.poppedAt p) ++ []).length := by
    intro p
    cases p with
    | log => rw [List.count_append, List.count_singleton_self]; exact Nat.zero_le _
    | _ => simpa using hf.served _
  cases ht with
  | called call events _ hcall hpops henough hothers hplace' hlog =>
    refine ⟨?_, fun p => ?_, fun p => ?_, ?_, k + 1, ?_, ?_⟩
    · rw [filterMap_append_one, filterMap_append_one]
      exact run_append hf.calls (run_one hcall)
    · rw [flatMap_append_one, flatMap_append_one, ← List.append_assoc, hf.order p]
      by_cases hp : p = m.place
      · subst hp
        simp [hpops]
      · simp [Ne.symm hp, hothers p hp]
    · rw [filterMap_append_one, flatMap_append_one, List.length_append]
      by_cases hp : p = m.place
      · subst hp
        simpa using Place.served_succ (hf.served m.place) (hlen m.place) henough
      · simpa [Ne.symm hp] using hf.served p
    · rw [filterMap_append_one, hlog]
      simpa using hf.windows
    · rw [filterMap_append_one]
      exact hnext.1
    · rw [hplace']
      exact hnext.2
  | logged window hlogplace hnew =>
    refine ⟨?_, fun p => ?_, fun p => ?_, ⟨?_, fun w hw => ?_⟩, k + 1, ?_, hnext.2⟩
    · rw [filterMap_append_one, filterMap_append_one]
      simpa using hf.calls
    · rw [flatMap_append_one, flatMap_append_one, ← List.append_assoc, hf.order p]
      cases p <;> simp [unread]
    · rw [filterMap_append_one, flatMap_append_one]
      exact hglance p
    · rw [filterMap_append_one, List.pairwise_append]
      refine ⟨hf.windows.1, List.pairwise_singleton _ _, fun w hw w' hw' => ?_⟩
      cases List.mem_singleton.1 hw'
      exact UInt64.lt_of_le_of_lt (hf.windows.2 w hw) hnew
    · rw [filterMap_append_one, List.mem_append] at hw
      rcases hw with hw | hw
      · exact UInt64.le_trans (hf.windows.2 w hw) (UInt64.le_of_lt hnew)
      · cases List.mem_singleton.1 hw
        exact UInt64.le_refl _
    · rw [filterMap_append_one, ← hnext.1, hlogplace]
      rfl
  | quiet hlogplace =>
    refine ⟨?_, fun p => ?_, fun p => ?_, ?_, k + 1, ?_, hnext.2⟩
    · rw [filterMap_append_one, filterMap_append_one]
      simpa using hf.calls
    · rw [flatMap_append_one, flatMap_append_one, ← List.append_assoc, hf.order p]
      cases p <;> simp [unread]
    · rw [filterMap_append_one, flatMap_append_one]
      exact hglance p
    · rw [filterMap_append_one]
      simpa using hf.windows
    · rw [filterMap_append_one, ← hnext.1, hlogplace]
      rfl

theorem Follows.run {sdk : Sdk} {args : Args} {steps : List MainStep} {m m' : MainLoop S H} {h : List (MainEvent F)}
    (hrun : Runs.run (MainLoop.step sdk args) m steps = .ok (h, m')) : Follows sdk args m h m' :=
  run_hist (fun h m' => Follows sdk args m h m') (fun h m₁ st o m₂ hf hstep => by
    cases st with
    | arrive a =>
      cases hstep
      exact hf.arrive a
    | turn elapsedMs => exact hf.turn (turn_cases hstep)) steps [] m h m' (.refl sdk args m) hrun

/-! ## Every turn returns -/

structure Ready (m : MainLoop S H) : Prop where
  qos : m.qos.Ready
  failed : ∀ packet ∈ m.failed, packet.fromIpv4

omit [Zero F] [One F] [Add F] [Sub F] [Mul F] [Div F] [NatCast F] [OfScientific F] in
theorem ready_init (sdk : Sdk) (args : Args) : (init sdk args : MainLoop S H).Ready :=
  ⟨QosState.ready_init sdk args, nofun⟩

theorem Ready.step {sdk : Sdk} (hticks : sdk.ticksPerMs ≠ 0) (args : Args) {m : MainLoop S H} (hm : m.Ready)
    {st : MainStep} (hst : st.deliverable) : ∃ o m', m.step sdk args st = .ok (o, m') ∧ m'.Ready := by
  cases st with
  | arrive a =>
    refine ⟨_, _, rfl, ?_, ?_⟩
    · cases a <;> exact hm.qos
    · cases a with
      | failed packet =>
        intro p hp
        rcases List.mem_append.1 hp with hp | hp
        · exact hm.failed p hp
        · cases List.mem_singleton.1 hp
          exact hst
      | _ => exact hm.failed
  | turn elapsedMs =>
    show ∃ o m', m.turn sdk args elapsedMs = .ok (o, m') ∧ m'.Ready
    unfold turn
    split
    · rename_i channel hplace
      obtain ⟨events, q, hcall, hq⟩ := hm.qos.call hticks args (.transactionPackets (m.packets channel)) trivial
      have hcall : m.qos.consumeTransactionPackets sdk (m.packets channel) = .ok (events, q) := hcall
      simp only [hcall, ok_bind]
      exact ⟨_, _, rfl, hq, hm.failed⟩
    · obtain ⟨events, q, hcall, hq⟩ := hm.qos.call hticks args (.recentSignatures m.signatures) trivial
      have hcall : m.qos.consumeRecentSignatures m.signatures = .ok (events, q) := hcall
      simp only [hcall, ok_bind]
      exact ⟨_, _, rfl, hq, hm.failed⟩
    · simp only
      split
      · exact ⟨_, _, rfl, hm.qos, hm.failed⟩
      · exact ⟨_, _, rfl, hm.qos, hm.failed⟩
    · obtain ⟨events, q, hcall, hq⟩ := hm.qos.call hticks args (.remainingMetas m.metas) trivial
      have hcall : m.qos.consumeRemainingMetas args m.metas = .ok (events, q) := hcall
      simp only [hcall, ok_bind]
      exact ⟨_, _, rfl, hq, hm.failed⟩
    · obtain ⟨events, q, hcall, hq⟩ := hm.qos.call hticks args (.sigverifySignals m.failed) hm.failed
      have hcall : m.qos.consumeSigverifySignals m.failed = .ok (events, q) := hcall
      simp only [hcall, ok_bind]
      exact ⟨_, _, rfl, hq, by simp⟩

/-- **The main loop is a run of its calls.**  Whatever arrives when, the loop returns from every turn; what it did to the
state of qos is a run of the four kinds of calls; at every place the popped messages and those still unread are the ones
that arrived, in their order and each once; and no two log lines are for the same five seconds. -/
theorem main_refines_calls (sdk : Sdk) (hticks : sdk.ticksPerMs ≠ 0) (args : Args) (steps : List MainStep)
    (hsteps : ∀ st ∈ steps, st.deliverable) :
    ∃ h m, Runs.run (step sdk args) (init sdk args : MainLoop S H) steps = .ok (h, m) ∧
      Runs.run (QosState.call sdk args) (QosState.init sdk args) (h.filterMap MainEvent.call) =
        .ok (h.filterMap MainEvent.events, m.qos) ∧
      (∀ p, h.flatMap (MainEvent.arrivedAt p) = h.flatMap (MainEvent.poppedAt p) ++ m.unread p) ∧
      (h.filterMap MainEvent.window).Pairwise (· < ·) := by
  obtain ⟨h, m, hrun, -⟩ := run_total MainStep.deliverable Ready
    (fun (m : MainLoop S H) st hst hm => hm.step hticks args hst) steps (init sdk args) hsteps (ready_init sdk args)
  have hf := Follows.run hrun
  refine ⟨h, m, hrun, hf.calls, fun p => ?_, hf.windows.1⟩
  have horder := hf.order p
  have hempty : (init sdk args : MainLoop S H).unread p = [] := by cases p <;> rfl
  rwa [hempty, List.nil_append] at horder

/-- A packet and a report arrive, and the loop goes once around. -/
theorem main_refines_calls_round :
    ∃ (h : List (MainEvent ℚ)) (m : MainLoop sortedTree scoreHeap),
      Runs.run (step steadySdk ⟨16, 16, 1000⟩) (init steadySdk ⟨16, 16, 1000⟩)
        (.arrive (.packet 2 (signedPacket ⟨#v[1, 2, 3, 4]⟩ 0)) :: .arrive (.failed (signedPacket ⟨#v[1, 2, 3, 4]⟩ 1)) ::
          List.replicate 8 (.turn 5000)) = .ok (h, m) ∧
      Runs.run (QosState.call steadySdk ⟨16, 16, 1000⟩) (QosState.init steadySdk ⟨16, 16, 1000⟩)
        (h.filterMap MainEvent.call) = .ok (h.filterMap MainEvent.events, m.qos) := by
  obtain ⟨h, m, hrun, hcalls, -⟩ := main_refines_calls (S := sortedTree) (H := scoreHeap) steadySdk (by decide)
    ⟨16, 16, 1000⟩ (.arrive (.packet 2 (signedPacket ⟨#v[1, 2, 3, 4]⟩ 0)) ::
      .arrive (.failed (signedPacket ⟨#v[1, 2, 3, 4]⟩ 1)) :: List.replicate 8 (.turn 5000)) (by
    intro st hst
    rcases List.mem_cons.1 hst with rfl | hst
    · trivial
    · rcases List.mem_cons.1 hst with rfl | hst
      · exact ⟨_, rfl⟩
      · rw [(List.mem_replicate.1 hst).2]
        trivial)
  exact ⟨h, m, hrun, hcalls⟩

/-! ## No channel waits for another -/

end MainLoop

omit [LinearOrder F] [Zero F] [One F] [Add F] [Sub F] [Mul F] [Div F] [NatCast F] [OfScientific F] in
theorem Place.round (a p : Place) : (List.iterate Place.next a 8).count p = 1 ∧ Place.next^[8] a = a := by
  revert a p
  decide

omit [LinearOrder F] [Zero F] [One F] [Add F] [Sub F] [Mul F] [Div F] [NatCast F] [OfScientific F] in
theorem Place.rounds (a p : Place) : ∀ k, k / 8 ≤ (List.iterate Place.next a k).count p := by
  intro k
  induction k using Nat.strong_induction_on with
  | h k ih =>
    by_cases hk : k < 8
    · rw [Nat.div_eq_of_lt hk]
      exact Nat.zero_le _
    · obtain ⟨j, rfl⟩ := Nat.exists_eq_add_of_le (Nat.not_lt.1 hk)
      obtain ⟨hone, hround⟩ := Place.round a p
      have hrest := ih j (by omega)
      rw [List.iterate_add, List.count_append, hone, hround]
      omega

omit [LinearOrder F] [Zero F] [One F] [Add F] [Sub F] [Mul F] [Div F] [NatCast F] [OfScientific F] in
theorem Place.served_mono (p : Place) {a b : Nat} (hab : a ≤ b) (len : Nat) :
    p.served a len ≤ p.served b len ∧ p.served b len ≤ len := by
  cases p with
  | packets channel =>
    simp only [Place.served]
    omega
  | metas =>
    simp only [Place.served]
    omega
  | _ => cases a <;> cases b <;> simp_all [Place.served]

namespace MainLoop

theorem length_places {sdk : Sdk} {args : Args} : ∀ (steps : List MainStep) (m m' : MainLoop S H)
    (h : List (MainEvent F)), Runs.run (step sdk args) m steps = .ok (h, m') →
    (h.filterMap MainEvent.place).length = steps.countP MainStep.isTurn
  | [], m, m', h, hrun => by
    cases hrun
    rfl
  | st :: steps, m, m', h, hrun => by
    obtain ⟨o, m₁, rest, hstep, hrest, rfl⟩ := run_cons_ok hrun
    have ih := length_places steps m₁ m' rest hrest
    cases st with
    | arrive a =>
      cases hstep
      rw [List.filterMap_cons_none rfl, List.countP_cons_of_neg (by simp [MainStep.isTurn])]
      exact ih
    | turn elapsedMs =>
      have hplace : o.place = some m.place := by
        cases turn_cases hstep with
        | called => rfl
        | logged window hlog => exact congrArg some hlog.symm
        | quiet hlog => exact congrArg some hlog.symm
      rw [List.filterMap_cons_some hplace, List.length_cons, ih, List.countP_cons_of_pos rfl]

/-- **No channel waits for another**: in so many rounds a channel of packets has given a thousand for each, the remaining
metas one for each, and the others all that they had. -/
theorem run_serves {sdk : Sdk} {args : Args} {steps : List MainStep} {m m' : MainLoop S H} {h : List (MainEvent F)}
    (hrun : Runs.run (step sdk args) m steps = .ok (h, m')) (p : Place) {rounds : Nat}
    (hmany : 8 * rounds ≤ steps.countP MainStep.isTurn) :
    (m.unread p).take (p.served rounds (m.unread p).length) <+: h.flatMap (MainEvent.poppedAt p) := by
  have hf := Follows.run hrun
  obtain ⟨k, hplaces, -⟩ := hf.places
  have hk : steps.countP MainStep.isTurn = k := by
    rw [← length_places steps m m' h hrun, hplaces, List.length_iterate]
  have hvisits : rounds ≤ (h.filterMap MainEvent.place).count p := by
    rw [hplaces]
    exact le_trans (by omega) (Place.rounds m.place p k)
  obtain ⟨hmono, -⟩ := p.served_mono hvisits (m.unread p).length
  have hlen := (p.served_mono (Nat.le_refl rounds) (m.unread p).length).2
  have hpopped := le_trans hmono (hf.served p)
  have htake := congrArg (List.take (p.served rounds (m.unread p).length)) (hf.order p)
  rw [List.take_append_of_le_length hlen, List.take_append_of_le_length hpopped] at htake
  rw [htake]
  exact List.take_prefix _ _

end MainLoop

end Turns

end Qos
