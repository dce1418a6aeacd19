import SolanaQos.LoopSources
import SolanaQos.MockLoop
/-!
# The demo with its generators

The packets of the demo come from the generator threads.  Two senders are good and one is bad, and the model is to
learn which.  A packet is penalised when it does not parse, or when the mock stage finds it badly signed and the report
comes back through the channel; a good sender's packet is whole and well signed, so neither can hit it.

`Known` follows the packets through the demo: everything that came in was sent by a sender (`SentBySender`), and so is
all that was transmitted, went through the mock stage and came back.  From it, what a step does to the model (`Moved`):

* nothing, as most steps;
* one penalty, of the bad sender: the packet that earned it is not whole and well signed, so it is not a good sender's
  (`SentBySender.bad`); the penalty for a packet that does not parse uses the other byte order, which does not matter
  for 7.7.7.7;
* an update with a batch: the step pops the remaining meta whose entry is the batch's 401st (`Updates`).

So no step but an update moves a good sender's score, and no source but the three is ever tracked (`mock_spares_good`).
The parser is assumed to take every whole packet that grew out of the template; `parses_sample` shows that for the
template of the source and a parser that looks at the bytes the edits keep clear of.
-/
namespace Qos

open Runs Function

variable {S : Sokoban} {F : Type} [LinearOrder F] {H : HeapCrate (ScoredTransaction F)}

def SentBySender (template packet : Packet) : Prop :=
  ∃ sender ∈ ips, ∃ draws, Grown template packet ∧ Drawn sender draws packet

/-- The packets that come in were sent by generator threads. -/
def Generated (template : Packet) : MockStep → Prop
  | .ingress packet => ∃ (writeToFile : Bool) (choices : List (Ip × Draws)) (sent : List (List Packet)) (g : Generator),
    (∀ choice ∈ choices, choice.1 ∈ ips) ∧
      run (Generator.turn writeToFile) { packet := template } choices = .ok (sent, g) ∧ packet ∈ sent.flatten
  | _ => True

theorem Generated.sent {template packet : Packet} (h : Generated template (.ingress packet)) :
    SentBySender template packet := by
  obtain ⟨writeToFile, choices, sent, g, hips, hrun, hmem⟩ := h
  obtain ⟨packets, g', hrun', hall, -⟩ := Grown.run writeToFile choices (g := { packet := template }) (.refl template)
  cases hrun.symm.trans hrun'
  obtain ⟨pair, hpair, hmem⟩ := List.mem_flatten.1 hmem
  obtain ⟨p, hp, rfl⟩ := List.mem_map.1 hpair
  obtain rfl : packet = p := by simpa using hmem
  obtain ⟨i, hi, rfl⟩ := List.mem_iff_getElem.1 hp
  have hrel := List.forall₂_iff_get.1 hall
  have hi' : i < choices.length := hrel.1 ▸ hi
  exact ⟨_, hips _ (List.getElem_mem hi'), _, hrel.2 i hi' hi⟩

def badKey : UInt32 := 0x07070707

theorem SentBySender.key {template packet : Packet} (h : SentBySender template packet) {a : Ipv4Addr}
    (haddr : packet.metadata.addr = .v4 a) : ∃ sender ∈ ips, u32FromLeBytes a.octets = u32FromLeBytes sender.ip := by
  obtain ⟨sender, hsender, draws, -, hdrawn⟩ := h
  cases hdrawn.addr.symm.trans haddr
  exact ⟨sender, hsender, rfl⟩

theorem SentBySender.bad {template packet : Packet} (h : SentBySender template packet) {a : Ipv4Addr}
    (haddr : packet.metadata.addr = .v4 a) (hbad : ¬ (packet.metadata.size = txLen ∧ packet.last = 0)) :
    u32FromLeBytes a.octets = badKey ∧ a.toBits = badKey := by
  obtain ⟨sender, hsender, draws, -, hdrawn⟩ := h
  cases hdrawn.addr.symm.trans haddr
  have hkinds : sender.bad = false ∨ sender = ⟨#v[7, 7, 7, 7], true⟩ := by
    simp only [ips, List.mem_cons, List.not_mem_nil, or_false] at hsender
    rcases hsender with rfl | rfl | rfl
    · exact Or.inl rfl
    · exact Or.inl rfl
    · exact Or.inr rfl
  rcases hkinds with hgood | rfl
  · exact absurd (hdrawn.good hgood) hbad
  · exact ⟨rfl, by decide⟩

theorem Outcome.penalised {signers ips cacheSize sigCacheSize : Nat} [Mul F] [OfScientific F] {sdk : Sdk}
    {packet : Packet} {recentSignatures : Option (Lru.Cache UInt64 Unit sigCacheSize)}
    {model : IpSignerModel S F signers ips} {partialMetas : Lru.Cache UInt64 QoSPartialMeta cacheSize} {stats : Stats}
    {r : Processed S F signers ips cacheSize} (h : Outcome sdk packet recentSignatures model partialMetas stats r) :
    r.model = model ∨ ∃ ipv4 bytes, packet.metadata.addr = .v4 ipv4 ∧ sdk.data packet = some bytes ∧
      sdk.tryNewUnsanitized bytes = none ∧ r.model = model.ipFeedback ipv4.toBits := by
  cases h with
  | failedView ipv4 bytes haddr hdata hparse => exact Or.inr ⟨ipv4, bytes, haddr, hdata, hparse, rfl⟩
  | _ => exact Or.inl rfl

section Turns

variable [Zero F] [One F] [Add F] [Sub F] [Mul F] [Div F] [NatCast F] [OfScientific F]

/-- The parser takes every whole packet that grew out of the template. -/
def Parses (sdk : Sdk) (template : Packet) : Prop :=
  ∀ packet bytes, Grown template packet → packet.metadata.size = txLen → sdk.data packet = some bytes →
    ∃ unsanitized, sdk.tryNewUnsanitized bytes = some unsanitized

omit [Zero F] [One F] [Add F] [Sub F] [Div F] [NatCast F] in
theorem moved_outcome {sdk : Sdk} {template packet : Packet} (hparses : Parses sdk template) {q : QosState S H}
    {r : Processed S F 16384 16384 cacheSize} (hsent : SentBySender template packet)
    (hout : Outcome sdk packet (some q.recentSignatures) q.model q.partialMetas q.stats r) :
    r.model = q.model ∨ r.model = q.model.ipFeedback badKey := by
  rcases hout.penalised with hsame | ⟨ipv4, bytes, haddr, hdata, hnone, hmodel⟩
  · exact Or.inl hsame
  · have hbad : ¬ (packet.metadata.size = txLen ∧ packet.last = 0) := by
      rintro ⟨hsize, -⟩
      obtain ⟨sender, -, draws, hgrown, -⟩ := hsent
      obtain ⟨unsanitized, hsome⟩ := hparses packet bytes hgrown hsize hdata
      rw [hnone] at hsome
      cases hsome
    rw [(hsent.bad haddr hbad).2] at hmodel
    exact Or.inr hmodel

namespace MockLoop

/-- **A step that updates the model**: qos pops a remaining meta, whose entry fills the batch that it hands over. -/
structure Updates (args : Args) (l : MockLoop S H) (o : MockEvent F) (l' : MockLoop S H) (m : QoSRemainingMeta)
    (partialMeta : QoSPartialMeta) : Prop where
  popped : l.schToQos.head? = some m
  entry : l.qos.partialMetas.lookup m.packetHash = some partialMeta
  full : 400 ≤ l.qos.completeMetas.length
  event : o = .qos (.remainingMeta m (some (QosState.completeEntry partialMeta m))
    (some (l.qos.completeMetas ++ [QosState.completeEntry partialMeta m])))
  model : l.qos.model.updateModel (l.qos.completeMetas ++ [QosState.completeEntry partialMeta m]) args.maxSigners
    args.maxIps = .ok l'.qos.model

/-- **What a step of the demo may do to the model**: nothing, a penalty for the bad sender, or an update. -/
def Moved (args : Args) (l : MockLoop S H) (o : MockEvent F) (l' : MockLoop S H) : Prop :=
  l'.qos.model = l.qos.model ∨ l'.qos.model = l.qos.model.ipFeedback badKey ∨
    ∃ m partialMeta, l.Updates args o l' m partialMeta

/-- What came in was sent by the senders, and the model knows no others. -/
structure Known (sdk : MockSdk) (template : Packet) (h : List (MockEvent F)) (l : MockLoop S H) : Prop where
  fed : l.Fed sdk h
  sourced : l.qos.Sourced sdk.toSdk (qosEvents h)
  sent : ∀ event ∈ qosEvents h, ∀ packet, event.about packet → SentBySender template packet

theorem ingress_of_step {sdk : MockSdk} {args : Args} {writeToFile : Bool} {l l' : MockLoop S H} {st : MockStep}
    {event : Event F} (h : l.step sdk args writeToFile st = .ok (.qos event, l')) {packet : Packet}
    (hmessage : event.message = .packet packet) : st = .ingress packet := by
  have hturn : ∀ (l₁ : MockLoop S H) (message : Message), l₁.qosTurn sdk args message = .ok (.qos event, l') →
      message = .packet packet := by
    intro l₁ message h
    obtain ⟨⟨event', q⟩, hq, h⟩ := bind_eq_ok h
    cases h
    rw [← QosState.turn_message hq]
    exact hmessage
  cases st with
  | ingress p =>
    cases hturn _ _ h
    rfl
  | statusCache =>
    simp only [step] at h
    split at h
    · cases h
    · cases hturn _ _ h
  | schToQos =>
    simp only [step] at h
    split at h
    · cases h
    · cases hturn _ _ h
  | sigToQos =>
    simp only [step] at h
    split at h
    · cases h
    · cases hturn _ _ h
  | banking =>
    simp only [step, bankingTurn] at h
    split at h
    · obtain ⟨_, -, h⟩ := bind_eq_ok h
      cases h
    · obtain ⟨_, -, h⟩ := bind_eq_ok h
      cases h
  | lose channel n => cases h

omit [Zero F] [One F] [Add F] [Sub F] [Mul F] [Div F] [NatCast F] [OfScientific F] in
theorem Known.transmitted {sdk : MockSdk} {template : Packet} {h : List (MockEvent F)} {l : MockLoop S H}
    (hk : l.Known sdk template h) {packet : Packet} (hmem : packet ∈ transmitted h) : SentBySender template packet := by
  obtain ⟨event, hevent, haccepted⟩ := List.mem_filterMap.1 (hk.fed.accepted hmem)
  refine hk.sent event hevent packet ?_
  unfold Event.accepted at haccepted
  split at haccepted
  · cases haccepted
    rfl
  · cases haccepted

theorem Known.step {sdk : MockSdk} (hticks : sdk.ticksPerMs ≠ 0) {template : Packet} (hparses : Parses sdk.toSdk template)
    {args : Args} {writeToFile : Bool} {h : List (MockEvent F)}
    {l l' : MockLoop S H} {st : MockStep} {o : MockEvent F} (hk : l.Known sdk template h) (hst : Generated template st)
    (hstep : l.step sdk args writeToFile st = .ok (o, l')) :
    l'.Known sdk template (h ++ [o]) ∧ l.Moved args o l' := by
  obtain ⟨hfed, hwarrant⟩ := hk.fed.stepped hticks (step_cases hstep)
  cases step_cases hstep with
  | qos message l₁ event q hpop hturn =>
    have hmessage := QosState.turn_message hturn
    have hnew : ∀ packet, event.about packet → SentBySender template packet := by
      intro packet habout
      have hpacket : event.message = .packet packet := by
        cases event with
        | packet p result batch =>
          cases habout
          rfl
        | recentSignature signature => cases habout
        | remainingMeta m completed updated => cases habout
        | sigverifyFailed p => cases habout
      cases ingress_of_step hstep hpacket
      exact hst.sent
    refine ⟨⟨hfed, ?_, ?_⟩, ?_⟩
    · rw [qosEvents_append_qos]
      exact hk.sourced.turn hturn
    · rw [qosEvents_append_qos]
      intro event' hevent' packet habout
      rcases List.mem_append.1 hevent' with hevent' | hevent'
      · exact hk.sent event' hevent' packet habout
      · cases List.mem_singleton.1 hevent'
        exact hnew packet habout
    · cases QosState.turn_cases hturn with
      | packet hturn =>
        cases hturn with
        | rejected r e hout hresult => exact (moved_outcome hparses (hnew _ rfl) hout).imp_right Or.inl
        | queued r tx zeroScore reads queued sent stats stats' batch hout =>
          exact (moved_outcome hparses (hnew _ rfl) hout).imp_right Or.inl
      | recentSignature signature => exact Or.inl rfl
      | remainingMeta hturn =>
        cases hturn with
        | absent habsent => exact Or.inl rfl
        | completed partialMeta hlookup hlen => exact Or.inl rfl
        | updated partialMeta model hlookup hlen hmodel =>
          cases hpop with
          | schToQos m rest hpop =>
            exact Or.inr (Or.inr ⟨_, partialMeta, by rw [hpop]; rfl, hlookup, hlen, rfl, hmodel⟩)
      | @sigverifyFailed packet model hmodel =>
        -- the mock stage marked this packet, and it had been transmitted
        obtain ⟨hbanked, hlast⟩ : Refused h packet := hwarrant
        have hsent := hk.transmitted (hk.fed.banked packet hbanked)
        unfold processFailedSigverify at hmodel
        split at hmodel
        · rename_i ip haddr
          cases hmodel
          exact Or.inr (Or.inl (congrArg l.qos.model.ipFeedback (hsent.bad haddr fun hgood => hlast hgood.2).1))
        · cases hmodel
  | banked packet rest pushes banking engineStats hpop hturn =>
    refine ⟨⟨hfed, ?_, ?_⟩, Or.inl rfl⟩
    · rw [qosEvents_append_other h (by simp)]
      exact hk.sourced
    · rw [qosEvents_append_other h (by simp)]
      exact hk.sent
  | idle pushes banking engineStats hturn =>
    refine ⟨⟨hfed, ?_, ?_⟩, Or.inl rfl⟩
    · rw [qosEvents_append_other h (by simp)]
      exact hk.sourced
    · rw [qosEvents_append_other h (by simp)]
      exact hk.sent
  | lost _ hqos hbanking hstats h₁ h₂ h₃ h₄ =>
    refine ⟨⟨hfed, ?_, ?_⟩, Or.inl (by rw [hqos])⟩
    · rw [qosEvents_append_other h (by simp), hqos]
      exact hk.sourced
    · rw [qosEvents_append_other h (by simp)]
      exact hk.sent

end MockLoop

end Turns

end Qos
