import SolanaQos.LoopBalance
import SolanaQos.LoopPackets
import SolanaQos.MockBanking
/-!
# The demo as a whole: qos and the mock banking stage (`qos/src/main.rs`, `engine-ipc/src/main.rs`)

What qos transmits comes back to it as signals.  A step of the demo is one turn of one of the two loops, in any order
(`MockStep`).  Packets arrive from outside as they like.  The four channels between the loops keep their order but may
lose messages from their front: the producers never wait, and a consumer that fell behind goes on from a later one.

`step_cases` says once what a step can do; every invariant is derived from it.  The central one, `Fed`, says of each
channel where its messages come from, by the history so far:

* what waits for the mock stage was transmitted, and all that was transmitted is readable, for qos accepts nothing
  else;
* what waits to be reported as badly signed went through the mock stage and is marked so (`Refused`);
* what waits as a remaining meta was said about a packet that passed (`Reported`), and what waits as a signature is of
  a packet that was scheduled (`Scheduled`).

A loss takes messages away and breaks none of this (`Fed.less`); a turn of either loop extends it (`Fed.qosTurn`,
`Fed.bank`).  Two results follow.  No step of any run panics (`mock_never_panics`): the packets that come back are
readable, so they have the IPv4 source that the failed-sigverify path takes for granted, and those that go out parse.
And all feedback that qos consumes is about packets that it transmitted, which had come in and been accepted
(`mock_feedback_warranted`).

The witnesses run the demo on numbered packets with a parser of their own (`steadyMock`) as far as a signal.
-/
namespace Qos

open Runs

inductive MockChannel
  | qosToSig
  | sigToQos
  | schToQos
  | statusCache

inductive MockStep
  | ingress (packet : Packet)
  -- qos pops from the channel of that name
  | statusCache
  | schToQos
  | sigToQos
  | banking
  | lose (channel : MockChannel) (n : Nat)

/-- What a step did: a turn of qos, a packet through the mock stage, or nothing either of them can see. -/
inductive MockEvent (F : Type)
  | qos (event : Event F)
  | banked (packet : Packet)
  | quiet

structure MockLoop (S : Sokoban) {F : Type} [LinearOrder F] (H : HeapCrate (ScoredTransaction F)) where
  qos : QosState S H
  banking : MockBanking := {}
  engineStats : EngineStats := {}
  qosToSig : List Packet := []
  sigToQos : List Packet := []
  schToQos : List QoSRemainingMeta := []
  statusCache : List Signature := []

variable {S : Sokoban} {F : Type} [LinearOrder F] {H : HeapCrate (ScoredTransaction F)}

namespace MockLoop

section Steps

variable [Zero F] [One F] [Add F] [Sub F] [Mul F] [Div F] [NatCast F] [OfScientific F]

def init (sdk : MockSdk) (args : Args) : MockLoop S H := { qos := QosState.init sdk.toSdk args }

/-- One turn of qos; what it transmits is there for the mock stage. -/
def qosTurn (sdk : MockSdk) (args : Args) (l : MockLoop S H) (message : Message) :
    Except Panic (MockEvent F × MockLoop S H) := do
  let (event, qos) ← l.qos.turn sdk.toSdk args message
  return (.qos event, { l with qos := qos, qosToSig := l.qosToSig ++ event.sent })

theorem qosTurn_ok {sdk : MockSdk} {args : Args} {l : MockLoop S H} {message : Message} {event : Event F}
    {q : QosState S H} (h : l.qos.turn sdk.toSdk args message = .ok (event, q)) :
    l.qosTurn sdk args message = .ok (.qos event, { l with qos := q, qosToSig := l.qosToSig ++ event.sent }) := by
  unfold qosTurn
  rw [h]
  rfl

def bankingTurn (sdk : MockSdk) (writeToFile : Bool) (l : MockLoop S H) : Except Panic (MockEvent F × MockLoop S H) :=
  match l.qosToSig with
  | [] => do
    let (_, banking, engineStats) ← l.banking.turn sdk writeToFile l.engineStats none
    return (.quiet, { l with banking := banking, engineStats := engineStats })
  | packet :: qosToSig => do
    let (pushes, banking, engineStats) ← l.banking.turn sdk writeToFile l.engineStats (some packet)
    return (.banked packet, { l with
      banking := banking
      engineStats := engineStats
      qosToSig := qosToSig
      sigToQos := l.sigToQos ++ pushes.sigToQos
      schToQos := l.schToQos ++ pushes.schToQos
      statusCache := l.statusCache ++ pushes.statusCache })

def lose (l : MockLoop S H) (n : Nat) : MockChannel → MockLoop S H
  | .qosToSig => { l with qosToSig := l.qosToSig.drop n }
  | .sigToQos => { l with sigToQos := l.sigToQos.drop n }
  | .schToQos => { l with schToQos := l.schToQos.drop n }
  | .statusCache => { l with statusCache := l.statusCache.drop n }

def step (sdk : MockSdk) (args : Args) (writeToFile : Bool) (l : MockLoop S H) :
    MockStep → Except Panic (MockEvent F × MockLoop S H)
  | .ingress packet => l.qosTurn sdk args (.packet packet)
  | .statusCache =>
    match l.statusCache with
    | [] => return (.quiet, l)
    | signature :: statusCache => qosTurn sdk args { l with statusCache := statusCache } (.recentSignature signature)
  | .schToQos =>
    match l.schToQos with
    | [] => return (.quiet, l)
    | m :: schToQos => qosTurn sdk args { l with schToQos := schToQos } (.remainingMeta m)
  | .sigToQos =>
    match l.sigToQos with
    | [] => return (.quiet, l)
    | packet :: sigToQos => qosTurn sdk args { l with sigToQos := sigToQos } (.sigverifyFailed packet)
  | .banking => l.bankingTurn sdk writeToFile
  | .lose channel n => return (.quiet, l.lose n channel)

end Steps

end MockLoop

/-! ## Histories -/

def qosEvents (h : List (MockEvent F)) : List (Event F) :=
  h.filterMap fun
    | .qos event => some event
    | _ => none

def transmitted (h : List (MockEvent F)) : List Packet := (qosEvents h).flatMap Event.sent

omit [LinearOrder F] in
theorem qosEvents_append_qos (h : List (MockEvent F)) (event : Event F) :
    qosEvents (h ++ [.qos event]) = qosEvents h ++ [event] := by
  unfold qosEvents
  rw [List.filterMap_append]
  rfl

omit [LinearOrder F] in
theorem transmitted_append_qos (h : List (MockEvent F)) (event : Event F) :
    transmitted (h ++ [.qos event]) = transmitted h ++ event.sent := by
  unfold transmitted
  rw [qosEvents_append_qos, flatMap_sent_append]

omit [LinearOrder F] in
theorem qosEvents_append_other (h : List (MockEvent F)) {o : MockEvent F} (ho : ∀ event, o ≠ .qos event) :
    qosEvents (h ++ [o]) = qosEvents h := by
  unfold qosEvents
  rw [List.filterMap_append]
  cases o with
  | qos event => exact absurd rfl (ho event)
  | banked packet => exact List.append_nil _
  | quiet => exact List.append_nil _

omit [LinearOrder F] in
theorem transmitted_append_other (h : List (MockEvent F)) {o : MockEvent F} (ho : ∀ event, o ≠ .qos event) :
    transmitted (h ++ [o]) = transmitted h := by
  unfold transmitted
  rw [qosEvents_append_other h ho]

def Refused (h : List (MockEvent F)) (packet : Packet) : Prop := .banked packet ∈ h ∧ packet.last ≠ 0

/-- The mock stage let a packet pass, and this is what it says about it. -/
def Reported (sdk : MockSdk) (h : List (MockEvent F)) (m : QoSRemainingMeta) : Prop :=
  ∃ packet, .banked packet ∈ h ∧ packet.last = 0 ∧ packetHash sdk.toSdk packet = .ok m.packetHash ∧
    m.executionNanos = mockNanos m.packetHash

def Scheduled (sdk : MockSdk) (h : List (MockEvent F)) (signature : Signature) : Prop :=
  ∃ packet ipv4 view hash, .banked packet ∈ h ∧ packet.last = 0 ∧ Readable sdk.toSdk packet ipv4 view ∧
    packetHash sdk.toSdk packet = .ok hash ∧ unscheduled hash = false ∧ view.firstSignature = signature

omit [LinearOrder F] in
theorem Refused.append {h : List (MockEvent F)} {packet : Packet} (hr : Refused h packet) (o : MockEvent F) :
    Refused (h ++ [o]) packet := ⟨List.mem_append_left _ hr.1, hr.2⟩

omit [LinearOrder F] in
theorem Reported.append {sdk : MockSdk} {h : List (MockEvent F)} {m : QoSRemainingMeta} (hr : Reported sdk h m)
    (o : MockEvent F) : Reported sdk (h ++ [o]) m := by
  obtain ⟨packet, hmem, hrest⟩ := hr
  exact ⟨packet, List.mem_append_left _ hmem, hrest⟩

omit [LinearOrder F] in
theorem Scheduled.append {sdk : MockSdk} {h : List (MockEvent F)} {signature : Signature}
    (hs : Scheduled sdk h signature) (o : MockEvent F) : Scheduled sdk (h ++ [o]) signature := by
  obtain ⟨packet, ipv4, view, hash, hmem, hrest⟩ := hs
  exact ⟨packet, ipv4, view, hash, List.mem_append_left _ hmem, hrest⟩

namespace MockEvent

def isBanked : MockEvent F → Bool
  | .banked _ => true
  | _ => false

def isRefused : MockEvent F → Bool
  | .banked p => p.last != 0
  | _ => false

def isScheduled (sdk : MockSdk) : MockEvent F → Bool
  | .banked p => p.last == 0 &&
    match packetHash sdk.toSdk p with
    | .ok hash => !unscheduled hash
    | .error _ => false
  | _ => false

end MockEvent

/-- **Where everything in the demo comes from**: what is unread between the loops was transmitted by qos or said by the
mock stage about a transmitted packet, every transmitted packet is readable, and the mock stage counts what it did. -/
structure MockLoop.Fed (sdk : MockSdk) (h : List (MockEvent F)) (l : MockLoop S H) : Prop where
  ready : l.qos.Ready
  recent : l.qos.Recent sdk.toSdk (qosEvents h)
  carried : l.qos.Carried (qosEvents h)
  readable : ∀ packet ∈ transmitted h, ∃ ipv4 view, Readable sdk.toSdk packet ipv4 view
  banked : ∀ packet, .banked packet ∈ h → packet ∈ transmitted h
  qosToSig : ∀ packet ∈ l.qosToSig, packet ∈ transmitted h
  sigToQos : ∀ packet ∈ l.sigToQos, Refused h packet
  schToQos : ∀ m ∈ l.schToQos, Reported sdk h m
  statusCache : ∀ signature ∈ l.statusCache, Scheduled sdk h signature
  tallied : l.banking.Tallied l.engineStats (h.countP MockEvent.isBanked) (h.countP MockEvent.isRefused)
    (h.countP (MockEvent.isScheduled sdk))

def Warrants (sdk : MockSdk) (h : List (MockEvent F)) : Message → Prop
  | .packet _ => True
  | .recentSignature signature => Scheduled sdk h signature
  | .remainingMeta m => Reported sdk h m
  | .sigverifyFailed packet => Refused h packet

/-- What qos was told in a step was said before, and what went through the mock stage was transmitted before. -/
def Warranted (sdk : MockSdk) (h : List (MockEvent F)) : MockEvent F → Prop
  | .qos event => Warrants sdk h event.message
  | .banked packet => packet ∈ transmitted h
  | .quiet => True

/-! ## One step -/

section Turns

variable [Zero F] [One F] [Add F] [Sub F] [Mul F] [Div F] [NatCast F] [OfScientific F]

namespace MockLoop

inductive Pops (l : MockLoop S H) : Message → MockLoop S H → Prop
  | ingress (packet : Packet) : Pops l (.packet packet) l
  | statusCache (signature : Signature) (rest : List Signature) (hpop : l.statusCache = signature :: rest) :
    Pops l (.recentSignature signature) { l with statusCache := rest }
  | schToQos (m : QoSRemainingMeta) (rest : List QoSRemainingMeta) (hpop : l.schToQos = m :: rest) :
    Pops l (.remainingMeta m) { l with schToQos := rest }
  | sigToQos (packet : Packet) (rest : List Packet) (hpop : l.sigToQos = packet :: rest) :
    Pops l (.sigverifyFailed packet) { l with sigToQos := rest }

/-- **What a step can do**: a turn of qos, a turn of the mock stage with or without a packet, or nothing but losses. -/
inductive Stepped (sdk : MockSdk) (args : Args) (writeToFile : Bool) (l : MockLoop S H) :
    MockEvent F → MockLoop S H → Prop
  | qos (message : Message) (l₁ : MockLoop S H) (event : Event F) (q : QosState S H) (hpop : l.Pops message l₁)
      (hturn : l.qos.turn sdk.toSdk args message = .ok (event, q)) :
    Stepped sdk args writeToFile l (.qos event) { l₁ with qos := q, qosToSig := l₁.qosToSig ++ event.sent }
  | banked (packet : Packet) (rest : List Packet) (pushes : Pushes) (banking : MockBanking) (engineStats : EngineStats)
      (hpop : l.qosToSig = packet :: rest)
      (hturn : l.banking.turn sdk writeToFile l.engineStats (some packet) = .ok (pushes, banking, engineStats)) :
    Stepped sdk args writeToFile l (.banked packet) { l with
      banking := banking
      engineStats := engineStats
      qosToSig := rest
      sigToQos := l.sigToQos ++ pushes.sigToQos
      schToQos := l.schToQos ++ pushes.schToQos
      statusCache := l.statusCache ++ pushes.statusCache }
  | idle (pushes : Pushes) (banking : MockBanking) (engineStats : EngineStats)
      (hturn : l.banking.turn sdk writeToFile l.engineStats none = .ok (pushes, banking, engineStats)) :
    Stepped sdk args writeToFile l .quiet { l with banking := banking, engineStats := engineStats }
  | lost (l' : MockLoop S H) (hqos : l'.qos = l.qos) (hbanking : l'.banking = l.banking)
      (hstats : l'.engineStats = l.engineStats) (h₁ : l'.qosToSig.Sublist l.qosToSig)
      (h₂ : l'.sigToQos.Sublist l.sigToQos) (h₃ : l'.schToQos.Sublist l.schToQos)
      (h₄ : l'.statusCache.Sublist l.statusCache) : Stepped sdk args writeToFile l .quiet l'

theorem qosTurn_stepped {sdk : MockSdk} {args : Args} {writeToFile : Bool} {l l₁ l' : MockLoop S H} {message : Message}
    {o : MockEvent F} (hpop : l.Pops message l₁) (h : l₁.qosTurn sdk args message = .ok (o, l')) :
    Stepped sdk args writeToFile l o l' := by
  have hsame : l₁.qos = l.qos := by cases hpop <;> rfl
  obtain ⟨⟨event, q⟩, hturn, h⟩ := bind_eq_ok h
  cases h
  exact .qos message l₁ event q hpop (hsame ▸ hturn)

theorem still_stepped {sdk : MockSdk} {args : Args} {writeToFile : Bool} (l : MockLoop S H) :
    Stepped sdk args writeToFile l .quiet l :=
  .lost l rfl rfl rfl (List.Sublist.refl _) (List.Sublist.refl _) (List.Sublist.refl _) (List.Sublist.refl _)

theorem step_cases {sdk : MockSdk} {args : Args} {writeToFile : Bool} {l l' : MockLoop S H} {st : MockStep}
    {o : MockEvent F} (h : l.step sdk args writeToFile st = .ok (o, l')) : Stepped sdk args writeToFile l o l' := by
  cases st with
  | ingress packet => exact qosTurn_stepped (.ingress packet) h
  | statusCache =>
    cases hc : l.statusCache with
    | nil =>
      simp only [step, hc] at h
      cases h
      exact still_stepped l
    | cons signature rest =>
      simp only [step, hc] at h
      exact qosTurn_stepped (.statusCache signature rest hc) h
  | schToQos =>
    cases hc : l.schToQos with
    | nil =>
      simp only [step, hc] at h
      cases h
      exact still_stepped l
    | cons m rest =>
      simp only [step, hc] at h
      exact qosTurn_stepped (.schToQos m rest hc) h
  | sigToQos =>
    cases hc : l.sigToQos with
    | nil =>
      simp only [step, hc] at h
      cases h
      exact still_stepped l
    | cons packet rest =>
      simp only [step, hc] at h
      exact qosTurn_stepped (.sigToQos packet rest hc) h
  | banking =>
    cases hc : l.qosToSig with
    | nil =>
      simp only [step, bankingTurn, hc] at h
      obtain ⟨⟨pushes, banking, engineStats⟩, hturn, h⟩ := bind_eq_ok h
      cases h
      have hidle : Stepped sdk args writeToFile l .quiet { l with banking := banking, engineStats := engineStats } :=
        .idle pushes banking engineStats hturn
      rw [hc] at hidle
      exact hidle
    | cons packet rest =>
      simp only [step, bankingTurn, hc] at h
      obtain ⟨⟨pushes, banking, engineStats⟩, hturn, h⟩ := bind_eq_ok h
      cases h
      exact .banked packet rest pushes banking engineStats hc hturn
  | lose channel n =>
    cases h
    cases channel with
    | qosToSig =>
      exact .lost _ rfl rfl rfl (List.drop_sublist _ _) (List.Sublist.refl _) (List.Sublist.refl _) (List.Sublist.refl _)
    | sigToQos =>
      exact .lost _ rfl rfl rfl (List.Sublist.refl _) (List.drop_sublist _ _) (List.Sublist.refl _) (List.Sublist.refl _)
    | schToQos =>
      exact .lost _ rfl rfl rfl (List.Sublist.refl _) (List.Sublist.refl _) (List.drop_sublist _ _) (List.Sublist.refl _)
    | statusCache =>
      exact .lost _ rfl rfl rfl (List.Sublist.refl _) (List.Sublist.refl _) (List.Sublist.refl _) (List.drop_sublist _ _)

/-! ## Where the messages come from -/

omit [Zero F] [One F] [Add F] [Sub F] [Mul F] [Div F] [NatCast F] [OfScientific F] in
theorem Fed.less {sdk : MockSdk} {h : List (MockEvent F)} {l l' : MockLoop S H} (hf : l.Fed sdk h)
    (hqos : l'.qos = l.qos) (h₁ : ∀ x ∈ l'.qosToSig, x ∈ l.qosToSig) (h₂ : ∀ x ∈ l'.sigToQos, x ∈ l.sigToQos)
    (h₃ : ∀ x ∈ l'.schToQos, x ∈ l.schToQos) (h₄ : ∀ x ∈ l'.statusCache, x ∈ l.statusCache)
    (ht : l'.banking.Tallied l'.engineStats (h.countP MockEvent.isBanked) (h.countP MockEvent.isRefused)
      (h.countP (MockEvent.isScheduled sdk))) : l'.Fed sdk h where
  ready := by
    rw [hqos]
    exact hf.ready
  recent := by
    rw [hqos]
    exact hf.recent
  carried := by
    rw [hqos]
    exact hf.carried
  readable := hf.readable
  banked := hf.banked
  qosToSig := fun x hx => hf.qosToSig x (h₁ x hx)
  sigToQos := fun x hx => hf.sigToQos x (h₂ x hx)
  schToQos := fun x hx => hf.schToQos x (h₃ x hx)
  statusCache := fun x hx => hf.statusCache x (h₄ x hx)
  tallied := ht

omit [Zero F] [One F] [Add F] [Sub F] [Mul F] [Div F] [NatCast F] [OfScientific F] in
theorem Fed.quiet {sdk : MockSdk} {h : List (MockEvent F)} {l : MockLoop S H} (hf : l.Fed sdk h) :
    l.Fed sdk (h ++ [.quiet]) where
  ready := hf.ready
  recent := by
    rw [qosEvents_append_other h (by simp)]
    exact hf.recent
  carried := by
    rw [qosEvents_append_other h (by simp)]
    exact hf.carried
  readable := by
    rw [transmitted_append_other h (by simp)]
    exact hf.readable
  banked := fun packet hpacket => by
    rw [transmitted_append_other h (by simp)]
    exact hf.banked packet (by simpa using hpacket)
  qosToSig := by
    rw [transmitted_append_other h (by simp)]
    exact hf.qosToSig
  sigToQos := fun packet hpacket => (hf.sigToQos packet hpacket).append _
  schToQos := fun m hm => (hf.schToQos m hm).append _
  statusCache := fun signature hs => (hf.statusCache signature hs).append _
  tallied := by simpa [List.countP_append, MockEvent.isBanked, MockEvent.isRefused, MockEvent.isScheduled] using hf.tallied

theorem Fed.qosTurn {sdk : MockSdk} (hticks : sdk.ticksPerMs ≠ 0) {args : Args} {h : List (MockEvent F)}
    {l : MockLoop S H} (hf : l.Fed sdk h) {message : Message} {event : Event F} {q : QosState S H}
    (hturn : l.qos.turn sdk.toSdk args message = .ok (event, q)) :
    Fed sdk (h ++ [.qos event]) { l with qos := q, qosToSig := l.qosToSig ++ event.sent } := by
  obtain ⟨hrecent, hsuppresses⟩ := hf.recent.turn hturn
  have hsent : ∀ packet ∈ event.sent, ∃ ipv4 view, Readable sdk.toSdk packet ipv4 view := by
    intro packet hpacket
    cases event with
    | packet p result batch =>
      obtain ⟨tx, htx, rfl⟩ := List.mem_map.1 hpacket
      obtain ⟨key, ⟨ipv4, view, hread, -⟩, -⟩ := hsuppresses.2.1 tx htx
      exact ⟨ipv4, view, hread⟩
    | recentSignature signature => cases hpacket
    | remainingMeta m completed updated => cases hpacket
    | sigverifyFailed p => cases hpacket
  refine ⟨hf.ready.turn hticks hturn, ?_, ?_, ?_, ?_, ?_, ?_, ?_, ?_, ?_⟩
  · rw [qosEvents_append_qos]
    exact hrecent
  · rw [qosEvents_append_qos]
    exact hf.carried.turn hturn
  · intro packet hpacket
    rw [transmitted_append_qos, List.mem_append] at hpacket
    exact hpacket.elim (hf.readable packet) (hsent packet)
  · intro packet hpacket
    rw [transmitted_append_qos, List.mem_append]
    refine Or.inl (hf.banked packet ?_)
    simpa using hpacket
  · intro packet hpacket
    rw [transmitted_append_qos, List.mem_append]
    exact (List.mem_append.1 hpacket).imp_left (hf.qosToSig packet)
  · exact fun packet hpacket => (hf.sigToQos packet hpacket).append _
  · exact fun m hm => (hf.schToQos m hm).append _
  · exact fun signature hs => (hf.statusCache signature hs).append _
  · simpa [List.countP_append, MockEvent.isBanked, MockEvent.isRefused, MockEvent.isScheduled] using hf.tallied

omit [Zero F] [One F] [Add F] [Sub F] [Mul F] [Div F] [NatCast F] [OfScientific F] in
theorem Fed.bank {sdk : MockSdk} {writeToFile : Bool} {h : List (MockEvent F)} {l : MockLoop S H} (hf : l.Fed sdk h)
    {packet : Packet} {rest : List Packet} (hpop : l.qosToSig = packet :: rest) {pushes : Pushes} {banking : MockBanking}
    {engineStats : EngineStats}
    (hturn : l.banking.turn sdk writeToFile l.engineStats (some packet) = .ok (pushes, banking, engineStats)) :
    Fed sdk (h ++ [.banked packet]) { l with
      banking := banking
      engineStats := engineStats
      qosToSig := rest
      sigToQos := l.sigToQos ++ pushes.sigToQos
      schToQos := l.schToQos ++ pushes.schToQos
      statusCache := l.statusCache ++ pushes.statusCache } := by
  have hsent : packet ∈ transmitted h := hf.qosToSig packet (by rw [hpop]; simp)
  obtain ⟨ipv4, view, hread⟩ := hf.readable packet hsent
  obtain ⟨hash, pushes', f, s, b, stats, hhash, hsignal, hturn', htallied⟩ :=
    MockBanking.turn_readable hread writeToFile hf.tallied
  cases hturn.symm.trans hturn'
  have hmem : MockEvent.banked packet ∈ h ++ [.banked packet] := by simp
  have hsame := transmitted_append_other h (o := .banked packet) (by simp)
  refine ⟨hf.ready, ?_, ?_, ?_, ?_, ?_, ?_, ?_, ?_, ?_⟩
  · rw [qosEvents_append_other h (by simp)]
    exact hf.recent
  · rw [qosEvents_append_other h (by simp)]
    exact hf.carried
  · rw [hsame]
    exact hf.readable
  · intro p hp
    rw [hsame]
    rcases List.mem_append.1 hp with hp | hp
    · exact hf.banked p hp
    · cases List.mem_singleton.1 hp
      exact hsent
  · intro p hp
    rw [hsame]
    exact hf.qosToSig p (by rw [hpop]; exact List.mem_cons_of_mem _ hp)
  · intro p hp
    rcases List.mem_append.1 hp with hp | hp
    · exact (hf.sigToQos p hp).append _
    · cases hsignal with
      | failed hlast =>
        cases List.mem_singleton.1 hp
        exact ⟨hmem, hlast⟩
      | unscheduled hlast hsched => cases hp
      | scheduled hlast hsched => cases hp
  · intro m hm
    rcases List.mem_append.1 hm with hm | hm
    · exact (hf.schToQos m hm).append _
    · cases hsignal with
      | failed hlast => cases hm
      | unscheduled hlast hsched =>
        cases List.mem_singleton.1 hm
        exact ⟨packet, hmem, hlast, hhash, by simp [mockNanos, hsched]⟩
      | scheduled hlast hsched =>
        cases List.mem_singleton.1 hm
        exact ⟨packet, hmem, hlast, hhash, rfl⟩
  · intro signature hs
    rcases List.mem_append.1 hs with hs | hs
    · exact (hf.statusCache signature hs).append _
    · cases hsignal with
      | failed hlast => cases hs
      | unscheduled hlast hsched => cases hs
      | scheduled hlast hsched =>
        cases List.mem_singleton.1 hs
        exact ⟨packet, ipv4, view, hash, hmem, hlast, hread, hhash, hsched, rfl⟩
  · have hcounts : MockEvent.isRefused (F := F) (.banked packet) = decide (f = 1) ∧
        MockEvent.isScheduled (F := F) sdk (.banked packet) = decide (s = 1) := by
      cases hsignal with
      | failed hlast => simp [MockEvent.isRefused, MockEvent.isScheduled, hlast]
      | unscheduled hlast hsched => simp [MockEvent.isRefused, MockEvent.isScheduled, hlast, hhash, hsched]
      | scheduled hlast hsched => simp [MockEvent.isRefused, MockEvent.isScheduled, hlast, hhash, hsched]
    have hf1 : (if decide (f = 1) = true then 1 else 0) = f := by cases hsignal <;> rfl
    have hs1 : (if decide (s = 1) = true then 1 else 0) = s := by cases hsignal <;> rfl
    rw [List.countP_append, List.countP_append, List.countP_append, List.countP_singleton, List.countP_singleton,
      List.countP_singleton, hcounts.1, hcounts.2, hf1, hs1]
    exact htallied

theorem Fed.stepped {sdk : MockSdk} (hticks : sdk.ticksPerMs ≠ 0) {args : Args} {writeToFile : Bool}
    {h : List (MockEvent F)} {l l' : MockLoop S H} {o : MockEvent F} (hf : l.Fed sdk h)
    (hs : Stepped sdk args writeToFile l o l') : l'.Fed sdk (h ++ [o]) ∧ Warranted sdk h o := by
  cases hs with
  | qos message l₁ event q hpop hturn =>
    have hwarrant : Warranted sdk h (.qos event) := by
      show Warrants sdk h event.message
      rw [QosState.turn_message hturn]
      cases hpop with
      | ingress packet => trivial
      | statusCache signature rest hpop => exact hf.statusCache signature (by rw [hpop]; simp)
      | schToQos m rest hpop => exact hf.schToQos m (by rw [hpop]; simp)
      | sigToQos packet rest hpop => exact hf.sigToQos packet (by rw [hpop]; simp)
    have hfed : l₁.Fed sdk h := by
      cases hpop with
      | ingress packet => exact hf
      | statusCache signature rest hpop =>
        exact hf.less rfl (fun _ hx => hx) (fun _ hx => hx) (fun _ hx => hx)
          (fun x hx => by rw [hpop]; exact List.mem_cons_of_mem _ hx) hf.tallied
      | schToQos m rest hpop =>
        exact hf.less rfl (fun _ hx => hx) (fun _ hx => hx)
          (fun x hx => by rw [hpop]; exact List.mem_cons_of_mem _ hx) (fun _ hx => hx) hf.tallied
      | sigToQos packet rest hpop =>
        exact hf.less rfl (fun _ hx => hx) (fun x hx => by rw [hpop]; exact List.mem_cons_of_mem _ hx) (fun _ hx => hx)
          (fun _ hx => hx) hf.tallied
    have hsame : l₁.qos = l.qos := by cases hpop <;> rfl
    exact ⟨hfed.qosTurn hticks (hsame ▸ hturn), hwarrant⟩
  | banked packet rest pushes banking engineStats hpop hturn =>
    exact ⟨hf.bank hpop hturn, hf.qosToSig packet (by rw [hpop]; simp)⟩
  | idle pushes banking engineStats hturn =>
    obtain ⟨b, stats, hturn', htallied⟩ := MockBanking.turn_idle sdk writeToFile hf.tallied
    cases hturn.symm.trans hturn'
    have hless : Fed sdk h { l with banking := banking, engineStats := engineStats } := hf.less rfl (fun _ hx => hx)
      (fun _ hx => hx) (fun _ hx => hx) (fun _ hx => hx) htallied
    exact ⟨hless.quiet, trivial⟩
  | lost _ hqos hbanking hstats h₁ h₂ h₃ h₄ =>
    have htallied := hf.tallied
    rw [← hbanking, ← hstats] at htallied
    exact ⟨(hf.less hqos (fun x hx => h₁.subset hx) (fun x hx => h₂.subset hx) (fun x hx => h₃.subset hx)
      (fun x hx => h₄.subset hx) htallied).quiet, trivial⟩

/-- **No step panics**: a packet that comes back as badly signed was readable when it was transmitted. -/
theorem Fed.step_ok {sdk : MockSdk} (hticks : sdk.ticksPerMs ≠ 0) (args : Args) (writeToFile : Bool)
    {h : List (MockEvent F)} {l : MockLoop S H} (hf : l.Fed sdk h) (st : MockStep) :
    ∃ o l', l.step sdk args writeToFile st = .ok (o, l') := by
  have hturn : ∀ (l₁ : MockLoop S H) (message : Message), l₁.qos = l.qos →
      (∀ packet, message = .sigverifyFailed packet → packet.fromIpv4) →
      ∃ o l', l₁.qosTurn sdk args message = .ok (o, l') := by
    intro l₁ message hsame hmessage
    obtain ⟨event, q, hturn⟩ := hf.ready.turn_ok hticks args hmessage
    exact ⟨_, _, qosTurn_ok (by rw [hsame]; exact hturn)⟩
  cases st with
  | ingress packet => exact hturn l _ rfl (by simp)
  | statusCache =>
    cases hc : l.statusCache with
    | nil => exact ⟨.quiet, l, by simp only [step, hc]; rfl⟩
    | cons signature rest =>
      simp only [step, hc]
      exact hturn _ _ rfl (by simp)
  | schToQos =>
    cases hc : l.schToQos with
    | nil => exact ⟨.quiet, l, by simp only [step, hc]; rfl⟩
    | cons m rest =>
      simp only [step, hc]
      exact hturn _ _ rfl (by simp)
  | sigToQos =>
    cases hc : l.sigToQos with
    | nil => exact ⟨.quiet, l, by simp only [step, hc]; rfl⟩
    | cons packet rest =>
      simp only [step, hc]
      refine hturn _ _ rfl fun p hp => ?_
      cases hp
      obtain ⟨hbanked, -⟩ := hf.sigToQos packet (by rw [hc]; simp)
      obtain ⟨ipv4, view, hread⟩ := hf.readable packet (hf.banked packet hbanked)
      exact ⟨ipv4, hread.addr⟩
  | banking =>
    cases hc : l.qosToSig with
    | nil =>
      simp only [step, bankingTurn, hc]
      exact ⟨_, _, rfl⟩
    | cons packet rest =>
      obtain ⟨ipv4, view, hread⟩ := hf.readable packet (hf.qosToSig packet (by rw [hc]; simp))
      obtain ⟨hash, pushes, f, s, b, stats, -, -, hbank, -⟩ := MockBanking.turn_readable hread writeToFile hf.tallied
      simp only [step, bankingTurn, hc, hbank, ok_bind]
      exact ⟨_, _, rfl⟩
  | lose channel n => exact ⟨_, _, rfl⟩

omit [Zero F] [One F] [Add F] [Sub F] [Mul F] [Div F] [NatCast F] [OfScientific F] in
theorem fed_init (sdk : MockSdk) (args : Args) : (init sdk args : MockLoop S H).Fed sdk [] where
  ready := QosState.ready_init sdk.toSdk args
  recent := QosState.recent_init sdk.toSdk args
  carried := QosState.carried_init sdk.toSdk args
  readable := nofun
  banked := nofun
  qosToSig := nofun
  sigToQos := nofun
  schToQos := nofun
  statusCache := nofun
  tallied := ⟨rfl, rfl, rfl, Nat.le_refl _, show 0 < 32768 by decide, Nat.dvd_zero _, Nat.le_refl _⟩

omit [Zero F] [One F] [Add F] [Sub F] [Mul F] [Div F] [NatCast F] [OfScientific F] in
theorem Fed.accepted {sdk : MockSdk} {h : List (MockEvent F)} {l : MockLoop S H} (hf : l.Fed sdk h) {packet : Packet}
    (hpacket : packet ∈ transmitted h) : packet ∈ (qosEvents h).filterMap Event.accepted :=
  Multiset.mem_coe.1 (Multiset.mem_of_le hf.carried.carried (Multiset.mem_add.2 (Or.inl hpacket)))

theorem Fed.run {sdk : MockSdk} (hticks : sdk.ticksPerMs ≠ 0) {args : Args} {writeToFile : Bool} {steps : List MockStep}
    {h : List (MockEvent F)} {l : MockLoop S H}
    (hrun : Runs.run (step sdk args writeToFile) (init sdk args) steps = .ok (h, l)) : l.Fed sdk h :=
  run_hist (fun h (l : MockLoop S H) => l.Fed sdk h)
    (fun _ _ _ _ _ hf hstep => (hf.stepped hticks (step_cases hstep)).1) steps [] _ _ _ (fed_init sdk args) hrun

/-- **The demo never panics**, whatever packets arrive, in whatever order the loops take their turns and whatever the
channels lose: no signal reaches `unreachable!`, no transmitted packet fails the mock stage's `unwrap` or `expect`, and
its hash and its slices stay in bounds. -/
theorem mock_never_panics (sdk : MockSdk) (hticks : sdk.ticksPerMs ≠ 0) (args : Args) (writeToFile : Bool)
    (steps : List MockStep) :
    ∃ h l, run (step sdk args writeToFile) (init sdk args : MockLoop S H) steps = .ok (h, l) := by
  have hstep : ∀ (l : MockLoop S H) (st : MockStep), True → (∃ h, l.Fed sdk h) →
      ∃ o l', l.step sdk args writeToFile st = .ok (o, l') ∧ ∃ h, l'.Fed sdk h := by
    rintro l st - ⟨h, hf⟩
    obtain ⟨o, l', hstep⟩ := hf.step_ok hticks args writeToFile st
    exact ⟨o, l', hstep, h ++ [o], (hf.stepped hticks (step_cases hstep)).1⟩
  obtain ⟨h, l, hrun, -⟩ := run_total (fun _ => True) _ hstep steps (init sdk args) (fun _ _ => trivial)
    ⟨[], fed_init sdk args⟩
  exact ⟨h, l, hrun⟩

def steadyMock : MockSdk where
  toSdk := steadySdk
  signatures := fun view => view.signatures
  sanitize_signatures := fun unsanitized view hsanitize => by
    cases hsanitize
    rfl

/-- Two packets come in, one of them is banked, and qos is told about it; the loops then find nothing or more. -/
theorem mock_never_panics_four :
    ∃ (h : List (MockEvent ℚ)) (l : MockLoop sortedTree scoreHeap),
      run (step steadyMock ⟨16, 16, 1000⟩ true) (init steadyMock ⟨16, 16, 1000⟩)
        [.ingress (signedPacket ⟨#v[1, 2, 3, 4]⟩ 0), .ingress (signedPacket ⟨#v[1, 2, 3, 4]⟩ 1), .banking, .schToQos] =
        .ok (h, l) :=
  mock_never_panics steadyMock (by decide) _ _ _

/-- **Feedback is about qos's own packets.**  In every run of the demo, whatever qos is told, at the moment it is told: a
confirmed signature is the first one of a transmitted packet that the mock stage scheduled, a remaining meta carries the
hash of a transmitted packet that passed and the execution time the hash stands for, and a packet reported as badly signed
was transmitted and is marked so.  What was transmitted had come in and had been accepted. -/
theorem mock_feedback_warranted (sdk : MockSdk) (hticks : sdk.ticksPerMs ≠ 0) (args : Args) (writeToFile : Bool)
    (steps : List MockStep) (h : List (MockEvent F)) (l : MockLoop S H)
    (hrun : run (step sdk args writeToFile) (init sdk args) steps = .ok (h, l)) (before after : List (MockEvent F))
    (o : MockEvent F) (hsplit : h = before ++ o :: after) :
    Warranted sdk before o ∧ (∀ packet, .banked packet ∈ before → packet ∈ transmitted before) ∧
      ∀ packet ∈ transmitted before, packet ∈ (qosEvents before).filterMap Event.accepted := by
  have hstep : ∀ (h : List (MockEvent F)) (l : MockLoop S H) (st : MockStep) (o : MockEvent F) (l' : MockLoop S H),
      l.Fed sdk h → l.step sdk args writeToFile st = .ok (o, l') → l'.Fed sdk (h ++ [o]) ∧
        (Warranted sdk h o ∧ (∀ packet, .banked packet ∈ h → packet ∈ transmitted h) ∧
          ∀ packet ∈ transmitted h, packet ∈ (qosEvents h).filterMap Event.accepted) := by
    intro h l st o l' hf hstep
    obtain ⟨hf', hw⟩ := hf.stepped hticks (step_cases hstep)
    exact ⟨hf', hw, hf.banked, fun packet => hf.accepted⟩
  exact run_trace (fun h l => l.Fed sdk h) _ hstep steps [] (init sdk args) h l (fed_init sdk args) hrun before o after
    hsplit

theorem last_signedPacket (a : Ipv4Addr) (i : Nat) : (signedPacket a i).last = 0 := by
  have hlast := getElem?_last (signedPacket a i)
  have hzero : (signedBytes i ++ List.replicate 1098 0)[packetDataSize - 1]? = some 0 := by
    rw [List.getElem?_append_right (show 134 ≤ packetDataSize - 1 by decide)]
    exact List.getElem?_replicate_of_lt (show packetDataSize - 1 - 134 < 1098 by decide)
  exact Option.some.inj (hlast.symm.trans hzero)

theorem step_ingress {sdk : MockSdk} {args : Args} {l : MockLoop S H} {packet : Packet} {event : Event F}
    {q : QosState S H} (h : l.qos.turn sdk.toSdk args (.packet packet) = .ok (event, q)) (writeToFile : Bool) :
    ∃ l', l.step sdk args writeToFile (.ingress packet) = .ok (.qos event, l') ∧ l'.qos = q ∧
      l'.qosToSig = l.qosToSig ++ event.sent := ⟨_, qosTurn_ok h, rfl, rfl⟩

theorem mock_signals :
    ∃ (e₀ e₁ : Event ℚ) (packet : Packet) (m : QoSRemainingMeta) (rest : List QoSRemainingMeta)
        (l : MockLoop sortedTree scoreHeap), run (step steadyMock ⟨16, 16, 1000⟩ false) (init steadyMock ⟨16, 16, 1000⟩)
          [.ingress (signedPacket ⟨#v[1, 2, 3, 4]⟩ 0), .ingress (signedPacket ⟨#v[1, 2, 3, 4]⟩ 1), .banking] =
          .ok ([.qos e₀, .qos e₁, .banked packet], l) ∧ l.schToQos = m :: rest := by
  obtain ⟨e₀, e₁, q₁, q₂, h₀, h₁, hsent⟩ := QosState.second_packet_sends ⟨#v[1, 2, 3, 4]⟩
  obtain ⟨l, hrun, hnext, hm₀, hm₁⟩ : ∃ l : MockLoop sortedTree scoreHeap,
      run (step steadyMock ⟨16, 16, 1000⟩ false) (init steadyMock ⟨16, 16, 1000⟩)
        [.ingress (signedPacket ⟨#v[1, 2, 3, 4]⟩ 0), .ingress (signedPacket ⟨#v[1, 2, 3, 4]⟩ 1)] =
        .ok ([.qos e₀, .qos e₁], l) ∧ l.qosToSig ≠ [] ∧ e₀.message = .packet (signedPacket ⟨#v[1, 2, 3, 4]⟩ 0) ∧
        e₁.message = .packet (signedPacket ⟨#v[1, 2, 3, 4]⟩ 1) := by
    generalize hinit : (init steadyMock ⟨16, 16, 1000⟩ : MockLoop sortedTree scoreHeap) = l₀
    have ht₀ : l₀.qos.turn steadyMock.toSdk ⟨16, 16, 1000⟩ (.packet (signedPacket ⟨#v[1, 2, 3, 4]⟩ 0)) = .ok (e₀, q₁) := by
      rw [← hinit]
      exact h₀
    obtain ⟨l₁, hs₀, hq, -⟩ := step_ingress ht₀ false
    have ht₁ : l₁.qos.turn steadyMock.toSdk ⟨16, 16, 1000⟩ (.packet (signedPacket ⟨#v[1, 2, 3, 4]⟩ 1)) = .ok (e₁, q₂) := by
      rw [hq]
      exact h₁
    obtain ⟨l₂, hs₁, -, hqueue⟩ := step_ingress ht₁ false
    have hrun := run_append (run_one hs₀) (run_one hs₁)
    exact ⟨l₂, hrun, fun hnil => hsent (List.append_eq_nil_iff.1 (hqueue.symm.trans hnil)).2, QosState.turn_message ht₀,
      QosState.turn_message ht₁⟩
  have hf := Fed.run (by decide) hrun
  obtain ⟨packet, rest, hpop⟩ := List.exists_cons_of_ne_nil hnext
  have hmem : packet ∈ transmitted [MockEvent.qos e₀, .qos e₁] := hf.qosToSig packet (by rw [hpop]; simp)
  obtain ⟨ipv4, view, hread⟩ := hf.readable packet hmem
  obtain ⟨hash, pushes, f, s, b, stats, -, hsignal, hbank, -⟩ := MockBanking.turn_readable hread false hf.tallied
  -- a packet that came in is well signed
  have hlast : packet.last = 0 := by
    obtain ⟨event, hevent, haccepted⟩ := List.mem_filterMap.1 (hf.accepted hmem)
    have hmessage := Event.accepted_message haccepted
    rcases List.mem_cons.1 hevent with rfl | hevent
    · cases hm₀.symm.trans hmessage
      exact last_signedPacket _ _
    · cases List.mem_singleton.1 hevent
      cases hm₁.symm.trans hmessage
      exact last_signedPacket _ _
  have hm : pushes.schToQos ≠ [] := by
    cases hsignal with
    | failed hne => exact absurd hlast hne
    | unscheduled _ hsched => exact List.cons_ne_nil _ _
    | scheduled _ hsched => exact List.cons_ne_nil _ _
  have hstep : l.step steadyMock ⟨16, 16, 1000⟩ false .banking = .ok (.banked packet, { l with
      banking := b
      engineStats := stats
      qosToSig := rest
      sigToQos := l.sigToQos ++ pushes.sigToQos
      schToQos := l.schToQos ++ pushes.schToQos
      statusCache := l.statusCache ++ pushes.statusCache }) := by
    simp only [step, bankingTurn, hpop, hbank, ok_bind]
    rfl
  obtain ⟨m', rest', hsch⟩ := List.exists_cons_of_ne_nil
    (show l.schToQos ++ pushes.schToQos ≠ [] from fun hnil => hm (List.append_eq_nil_iff.1 hnil).2)
  have hrun' := run_append hrun (run_one hstep)
  exact ⟨e₀, e₁, packet, m', rest', _, hrun', hsch⟩

/-- The mock stage has banked one of the packets, and qos is told what it said about it. -/
theorem mock_feedback_warranted_meta :
    ∃ (before : List (MockEvent ℚ)) (event : Event ℚ) (m : QoSRemainingMeta) (l : MockLoop sortedTree scoreHeap),
      run (step steadyMock ⟨16, 16, 1000⟩ false) (init steadyMock ⟨16, 16, 1000⟩)
        [.ingress (signedPacket ⟨#v[1, 2, 3, 4]⟩ 0), .ingress (signedPacket ⟨#v[1, 2, 3, 4]⟩ 1), .banking, .schToQos] =
        .ok (before ++ [.qos event], l) ∧
      event.message = .remainingMeta m ∧ Warranted steadyMock before (.qos event) := by
  obtain ⟨e₀, e₁, packet, m, rest, l, hrun, hsch⟩ := mock_signals
  have hf := Fed.run (by decide) hrun
  obtain ⟨event, q, hturn⟩ : ∃ event q, l.qos.turn steadyMock.toSdk ⟨16, 16, 1000⟩ (.remainingMeta m) = .ok (event, q) :=
    hf.ready.turn_ok (by decide) _ (by simp)
  have hstep : l.step steadyMock ⟨16, 16, 1000⟩ false .schToQos = .ok (.qos event, { l with
      schToQos := rest
      qos := q
      qosToSig := l.qosToSig ++ event.sent }) := by
    simp only [step, hsch]
    exact qosTurn_ok hturn
  have hrun' := run_append hrun (run_one hstep)
  refine ⟨_, event, m, _, hrun', QosState.turn_message hturn, ?_⟩
  exact (mock_feedback_warranted steadyMock (by decide) _ _ _ _ _ hrun' _ [] _ rfl).1

end MockLoop

end Turns

end Qos
