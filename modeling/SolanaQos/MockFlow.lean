import SolanaQos.LoopCredit
import SolanaQos.LoopTransmit
import SolanaQos.MockLoop
/-!
# The counters of the demo

Every stage counts what it handles, and a message is handled at most once: what qos has completed was let pass by the
mock stage, what the mock stage received was transmitted, what was transmitted came in.  The counters of the threads,
the shared ones and the messages still unread add up to this, however the turns interleave and whatever is lost on the
way (`mock_counters`).

The argument counts in the history.  `Flowing` says for each channel that what was taken out of it and what is still in
it is no more than what was put in: a pop moves one message from the channel to the history (`Pops.moved`), a loss
lowers the left side only (`Flowing.less`).  The counters of qos are then those of its balance, and those of the mock
stage its tally.  All counters are natural numbers here, where the source's wrap.
-/
namespace Qos

open Runs

variable {S : Sokoban} {F : Type} [LinearOrder F] {H : HeapCrate (ScoredTransaction F)}

namespace MockEvent

def isMeta : MockEvent F → Bool
  | .qos (.remainingMeta _ _ _) => true
  | _ => false

def isSignature : MockEvent F → Bool
  | .qos (.recentSignature _) => true
  | _ => false

def isPenalty : MockEvent F → Bool
  | .qos (.sigverifyFailed _) => true
  | _ => false

end MockEvent

section Turns

variable [Zero F] [One F] [Add F] [Sub F] [Mul F] [Div F] [NatCast F] [OfScientific F]

theorem QosState.Balanced.feedback_stats {sdk : Sdk} {args : Args} {q q' : QosState S H} {message : Message}
    {event : Event F} (h : q.Balanced) (hturn : q.turn sdk args message = .ok (event, q')) :
    q'.stats.completed ≤ q.stats.completed + (if MockEvent.isMeta (.qos event) then 1 else 0) ∧
      q'.stats.recentSignaturesReceived =
        q.stats.recentSignaturesReceived + (if MockEvent.isSignature (.qos event) then 1 else 0) := by
  cases QosState.turn_cases hturn with
  | packet hturn =>
    cases hturn with
    | rejected r e hout hresult =>
      have hsame : r.stats.completed = q.stats.completed ∧
          r.stats.recentSignaturesReceived = q.stats.recentSignaturesReceived := by cases hout <;> exact ⟨rfl, rfl⟩
      exact ⟨hsame.1.le, hsame.2⟩
    | queued r tx zeroScore reads queued sent stats stats' batch hout hresult hqueue htransmit =>
      obtain ⟨txMut, htx, -⟩ := h.pushed
      obtain ⟨evicted, txMut', -, -, -, -, -, -, hfinal⟩ := queue_maybeTransmit h.bounded htx hqueue htransmit
      rw [hout.settled_ok hresult] at hfinal
      simp only [hfinal]
      exact ⟨le_refl _, rfl⟩
  | recentSignature signature => exact ⟨le_refl _, rfl⟩
  | remainingMeta hturn =>
    cases hturn with
    | absent habsent => exact ⟨Nat.le_succ _, rfl⟩
    | completed partialMeta hlookup hlen => exact ⟨le_refl _, rfl⟩
    | updated partialMeta model hlookup hlen hmodel => exact ⟨le_refl _, rfl⟩
  | sigverifyFailed model hmodel => exact ⟨le_refl _, rfl⟩

namespace MockLoop

/-- **What flows**: each channel still holds at most what was put in and not taken out. -/
structure Flowing (sdk : MockSdk) (h : List (MockEvent F)) (l : MockLoop S H) : Prop where
  balanced : l.qos.Balanced
  qosToSig : h.countP MockEvent.isBanked + l.qosToSig.length ≤ (transmitted h).length
  sigToQos : h.countP MockEvent.isPenalty + l.sigToQos.length ≤ h.countP MockEvent.isRefused
  schToQos : h.countP MockEvent.isMeta + l.schToQos.length + h.countP MockEvent.isRefused ≤ h.countP MockEvent.isBanked
  statusCache : h.countP MockEvent.isSignature + l.statusCache.length ≤ h.countP (MockEvent.isScheduled sdk)
  completed : l.qos.stats.completed ≤ h.countP MockEvent.isMeta
  signatures : l.qos.stats.recentSignaturesReceived = h.countP MockEvent.isSignature

omit [Zero F] [One F] [Add F] [Sub F] [Mul F] [Div F] [NatCast F] [OfScientific F] in
theorem flowing_init (sdk : MockSdk) (args : Args) : (init sdk args : MockLoop S H).Flowing sdk [] where
  balanced := QosState.balanced_init sdk.toSdk args
  qosToSig := Nat.le_refl _
  sigToQos := Nat.le_refl _
  schToQos := Nat.le_refl _
  statusCache := Nat.le_refl _
  completed := Nat.le_refl _
  signatures := rfl

omit [Zero F] [One F] [Add F] [Sub F] [Mul F] [Div F] [NatCast F] [OfScientific F] in
theorem Pops.moved {h : List (MockEvent F)} {l l₁ : MockLoop S H} {event : Event F} (hpop : l.Pops event.message l₁) :
    (h ++ [MockEvent.qos event]).countP MockEvent.isPenalty + l₁.sigToQos.length =
        h.countP MockEvent.isPenalty + l.sigToQos.length ∧
      (h ++ [MockEvent.qos event]).countP MockEvent.isMeta + l₁.schToQos.length =
        h.countP MockEvent.isMeta + l.schToQos.length ∧
      (h ++ [MockEvent.qos event]).countP MockEvent.isSignature + l₁.statusCache.length =
        h.countP MockEvent.isSignature + l.statusCache.length := by
  rw [countP_append_one, countP_append_one, countP_append_one]
  cases event with
  | packet packet result batch =>
    cases hpop
    exact ⟨rfl, rfl, rfl⟩
  | recentSignature signature =>
    cases hpop with
    | statusCache _ rest hpop =>
      refine ⟨rfl, rfl, ?_⟩
      rw [hpop]
      simp only [MockEvent.isSignature, if_true, List.length_cons]
      omega
  | remainingMeta m completed updated =>
    cases hpop with
    | schToQos _ rest hpop =>
      refine ⟨rfl, ?_, rfl⟩
      rw [hpop]
      simp only [MockEvent.isMeta, if_true, List.length_cons]
      omega
  | sigverifyFailed packet =>
    cases hpop with
    | sigToQos _ rest hpop =>
      refine ⟨?_, rfl, rfl⟩
      rw [hpop]
      simp only [MockEvent.isPenalty, if_true, List.length_cons]
      omega

theorem Flowing.qosTurn {sdk : MockSdk} {args : Args} {h : List (MockEvent F)} {l l₁ : MockLoop S H} {message : Message}
    {event : Event F} {q : QosState S H} (hl : l.Flowing sdk h) (hpop : l.Pops message l₁)
    (hturn : l.qos.turn sdk.toSdk args message = .ok (event, q)) :
    Flowing sdk (h ++ [.qos event]) { l₁ with qos := q, qosToSig := l₁.qosToSig ++ event.sent } := by
  obtain ⟨hcompleted, hsignatures⟩ := hl.balanced.feedback_stats hturn
  have hq : l₁.qosToSig = l.qosToSig := by cases hpop <;> rfl
  rw [← QosState.turn_message hturn] at hpop
  obtain ⟨hm₁, hm₂, hm₃⟩ := hpop.moved (h := h)
  have hb₁ : (h ++ [MockEvent.qos event]).countP MockEvent.isBanked = h.countP MockEvent.isBanked :=
    countP_append_one _ _ _
  have hb₂ : (h ++ [MockEvent.qos event]).countP MockEvent.isRefused = h.countP MockEvent.isRefused :=
    countP_append_one _ _ _
  have hb₃ : (h ++ [MockEvent.qos event]).countP (MockEvent.isScheduled sdk) = h.countP (MockEvent.isScheduled sdk) :=
    countP_append_one _ _ _
  refine ⟨hl.balanced.turn hturn, ?_, ?_, ?_, ?_, ?_, ?_⟩
  · have := hl.qosToSig
    rw [hb₁, transmitted_append_qos, List.length_append, hq, List.length_append]
    omega
  · have := hl.sigToQos
    simp only
    omega
  · have := hl.schToQos
    simp only
    omega
  · have := hl.statusCache
    simp only
    omega
  · rw [countP_append_one]
    exact le_trans hcompleted (Nat.add_le_add_right hl.completed _)
  · rw [countP_append_one, ← hl.signatures]
    exact hsignatures

omit [Zero F] [One F] [Add F] [Sub F] [Mul F] [Div F] [NatCast F] [OfScientific F] in
theorem Flowing.bank {sdk : MockSdk} {writeToFile : Bool} {h : List (MockEvent F)} {l : MockLoop S H}
    (hl : l.Flowing sdk h) (hf : l.Fed sdk h) {packet : Packet} {rest : List Packet} (hpop : l.qosToSig = packet :: rest)
    {pushes : Pushes} {banking : MockBanking} {engineStats : EngineStats}
    (hturn : l.banking.turn sdk writeToFile l.engineStats (some packet) = .ok (pushes, banking, engineStats)) :
    Flowing sdk (h ++ [.banked packet]) { l with
      banking := banking
      engineStats := engineStats
      qosToSig := rest
      sigToQos := l.sigToQos ++ pushes.sigToQos
      schToQos := l.schToQos ++ pushes.schToQos
      statusCache := l.statusCache ++ pushes.statusCache } := by
  obtain ⟨ipv4, view, hread⟩ := hf.readable packet (hf.qosToSig packet (by rw [hpop]; simp))
  obtain ⟨hash, pushes', f, s, b, stats, hhash, hsignal, hturn', -⟩ :=
    MockBanking.turn_readable hread writeToFile hf.tallied
  cases hturn.symm.trans hturn'
  have hc₁ : (h ++ [MockEvent.banked packet]).countP MockEvent.isPenalty = h.countP MockEvent.isPenalty :=
    countP_append_one _ _ _
  have hc₂ : (h ++ [MockEvent.banked packet]).countP MockEvent.isMeta = h.countP MockEvent.isMeta :=
    countP_append_one _ _ _
  have hc₃ : (h ++ [MockEvent.banked packet]).countP MockEvent.isSignature = h.countP MockEvent.isSignature :=
    countP_append_one _ _ _
  have hc₄ : (h ++ [MockEvent.banked packet]).countP MockEvent.isBanked = h.countP MockEvent.isBanked + 1 :=
    countP_append_one _ _ _
  -- the packet is refused or reported, and a scheduled one is confirmed too
  obtain ⟨hv₁, hv₂, hv₃⟩ : (h ++ [MockEvent.banked packet]).countP MockEvent.isRefused =
        h.countP MockEvent.isRefused + pushes.sigToQos.length ∧
      (h ++ [MockEvent.banked packet]).countP (MockEvent.isScheduled sdk) =
        h.countP (MockEvent.isScheduled sdk) + pushes.statusCache.length ∧
      pushes.schToQos.length + pushes.sigToQos.length = 1 := by
    rw [countP_append_one, countP_append_one]
    cases hsignal with
    | failed hlast => simp [MockEvent.isRefused, MockEvent.isScheduled, hlast]
    | unscheduled hlast hsched => simp [MockEvent.isRefused, MockEvent.isScheduled, hlast, hhash, hsched]
    | scheduled hlast hsched => simp [MockEvent.isRefused, MockEvent.isScheduled, hlast, hhash, hsched]
  refine ⟨hl.balanced, ?_, ?_, ?_, ?_, ?_, ?_⟩
  · have := hl.qosToSig
    rw [hpop, List.length_cons] at this
    rw [hc₄, transmitted_append_other h (by simp)]
    simp only
    omega
  · have := hl.sigToQos
    rw [hc₁, hv₁, List.length_append]
    omega
  · have := hl.schToQos
    rw [hc₂, hc₄, hv₁, List.length_append]
    omega
  · have := hl.statusCache
    rw [hc₃, hv₂, List.length_append]
    omega
  · rw [hc₂]
    exact hl.completed
  · rw [hc₃]
    exact hl.signatures

omit [Zero F] [One F] [Add F] [Sub F] [Mul F] [Div F] [NatCast F] [OfScientific F] in
theorem Flowing.less {sdk : MockSdk} {h : List (MockEvent F)} {l l' : MockLoop S H} (hl : l.Flowing sdk h)
    (hqos : l'.qos = l.qos) (h₁ : l'.qosToSig.length ≤ l.qosToSig.length)
    (h₂ : l'.sigToQos.length ≤ l.sigToQos.length) (h₃ : l'.schToQos.length ≤ l.schToQos.length)
    (h₄ : l'.statusCache.length ≤ l.statusCache.length) : l'.Flowing sdk (h ++ [.quiet]) := by
  have hsame : ∀ p : MockEvent F → Bool, p .quiet = false → (h ++ [MockEvent.quiet]).countP p = h.countP p := by
    intro p hp
    rw [countP_append_one, hp]
    rfl
  refine ⟨hqos ▸ hl.balanced, ?_, ?_, ?_, ?_, ?_, ?_⟩
  · rw [hsame MockEvent.isBanked rfl, transmitted_append_other h (by simp)]
    exact le_trans (Nat.add_le_add_left h₁ _) hl.qosToSig
  · rw [hsame MockEvent.isPenalty rfl, hsame MockEvent.isRefused rfl]
    exact le_trans (Nat.add_le_add_left h₂ _) hl.sigToQos
  · rw [hsame MockEvent.isMeta rfl, hsame MockEvent.isRefused rfl, hsame MockEvent.isBanked rfl]
    exact le_trans (Nat.add_le_add_right (Nat.add_le_add_left h₃ _) _) hl.schToQos
  · rw [hsame MockEvent.isSignature rfl, hsame (MockEvent.isScheduled sdk) rfl]
    exact le_trans (Nat.add_le_add_left h₄ _) hl.statusCache
  · rw [hsame MockEvent.isMeta rfl, hqos]
    exact hl.completed
  · rw [hsame MockEvent.isSignature rfl, hqos]
    exact hl.signatures

theorem Flowing.stepped {sdk : MockSdk} {args : Args} {writeToFile : Bool} {h : List (MockEvent F)} {l l' : MockLoop S H}
    {o : MockEvent F} (hl : l.Flowing sdk h) (hf : l.Fed sdk h) (hs : Stepped sdk args writeToFile l o l') :
    l'.Flowing sdk (h ++ [o]) := by
  cases hs with
  | qos message l₁ event q hpop hturn => exact hl.qosTurn hpop hturn
  | banked packet rest pushes banking engineStats hpop hturn => exact hl.bank hf hpop hturn
  | idle pushes banking engineStats hturn =>
    exact hl.less rfl (Nat.le_refl _) (Nat.le_refl _) (Nat.le_refl _) (Nat.le_refl _)
  | lost _ hqos hbanking hstats h₁ h₂ h₃ h₄ => exact hl.less hqos h₁.length_le h₂.length_le h₃.length_le h₄.length_le

/-- **The counters of the demo**, in every state of every run.  What qos completed and what it penalised for sigverify are
no more than the mock stage received, which is no more than what qos transmitted, which is no more than what came in; the
confirmed signatures are no more than the scheduled packets; and the shared counters hold whole blocks of 32768 received
packets, of which those sent on to qos and to the scheduler are parts. -/
theorem mock_counters (sdk : MockSdk) (hticks : sdk.ticksPerMs ≠ 0) (args : Args) (writeToFile : Bool)
    (steps : List MockStep) (h : List (MockEvent F)) (l : MockLoop S H)
    (hrun : run (step sdk args writeToFile) (init sdk args) steps = .ok (h, l)) :
    l.qos.stats.completed + h.countP MockEvent.isPenalty ≤ l.engineStats.sigverifyRecvs + l.banking.received ∧
      h.countP MockEvent.isPenalty ≤ l.engineStats.sigverifySends + l.banking.failed ∧
      l.qos.stats.recentSignaturesReceived ≤ l.engineStats.schedulerSends + l.banking.sched ∧
      l.engineStats.sigverifyRecvs + l.banking.received ≤ l.qos.stats.bankingTransmissions ∧
      l.qos.stats.bankingTransmissions ≤ l.qos.stats.totalPackets ∧
      32768 ∣ l.engineStats.sigverifyRecvs ∧ l.banking.received < 32768 ∧
      l.engineStats.sigverifySends + l.engineStats.schedulerSends ≤ l.engineStats.sigverifyRecvs := by
  have hhist := run_hist (fun h (l : MockLoop S H) => l.Fed sdk h ∧ l.Flowing sdk h)
    (fun h l st o l' hi hstep => ⟨(hi.1.stepped hticks (step_cases hstep)).1, hi.2.stepped hi.1 (step_cases hstep)⟩)
    steps [] (init sdk args) h l ⟨fed_init sdk args, flowing_init sdk args⟩ hrun
  rw [List.nil_append] at hhist
  obtain ⟨hf, hl⟩ := hhist
  have ht := hf.tallied
  obtain ⟨txMut, htx, hpushed⟩ := hf.recent.pushed
  obtain ⟨txMut', htx', hcount⟩ := hl.balanced.pushed
  cases htx.symm.trans htx'
  have hsent : l.qos.stats.bankingTransmissions = (transmitted h).length := by
    rw [hcount, hpushed]
    rfl
  have htotal := hl.balanced.total
  unfold Stats.settled at htotal
  have hreceived := ht.received
  have hfailed := ht.failed
  have hsched := ht.sched
  have h₁ := hl.qosToSig
  have h₂ := hl.sigToQos
  have h₃ := hl.schToQos
  have h₄ := hl.statusCache
  have h₅ := hl.completed
  have h₆ := hl.signatures
  refine ⟨?_, ?_, ?_, ?_, ?_, ht.blocks, ht.room, ht.shared⟩ <;> omega

/-- Two packets come in, and the mock stage has banked one of them. -/
theorem mock_counters_banked :
    ∃ (h : List (MockEvent ℚ)) (l : MockLoop sortedTree scoreHeap),
      run (step steadyMock ⟨16, 16, 1000⟩ false) (init steadyMock ⟨16, 16, 1000⟩)
        [.ingress (signedPacket ⟨#v[1, 2, 3, 4]⟩ 0), .ingress (signedPacket ⟨#v[1, 2, 3, 4]⟩ 1), .banking] = .ok (h, l) ∧
      l.engineStats.sigverifyRecvs + l.banking.received = 1 ∧ 1 ≤ l.qos.stats.bankingTransmissions ∧
      l.qos.stats.bankingTransmissions ≤ l.qos.stats.totalPackets := by
  obtain ⟨e₀, e₁, packet, m, rest, l, hrun, -⟩ := mock_signals
  have hreceived := (Fed.run (by decide) hrun).tallied.received
  obtain ⟨-, -, -, hbanked, htotal, -⟩ := mock_counters steadyMock (by decide) _ _ _ _ _ hrun
  rw [hreceived] at hbanked
  exact ⟨_, l, hrun, hreceived, hbanked, htotal⟩

end MockLoop

end Turns

end Qos
