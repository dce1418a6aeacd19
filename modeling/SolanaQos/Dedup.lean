import SolanaQos.Loop
/-!
# The deduplication window

Calls of `try_process_packet` and completions share one partial meta cache.  After a hash was put it stays until `n`
distinct other hashes were put or its meta was consumed; a packet that reaches the put while its hash is stored is a
duplicate.  Model, recent signatures and counters are free in every call: only the cache is carried along, so the
result holds whatever the rest of the program does between the calls.

A trace is a list of events, each a call with its outcome or a completion.  `PutLast` and `othersPut` read off it what
the claim speaks of: that the last thing that happened to a hash is a put, and which other hashes were put behind it.
`Windows` relates them to the cache.  It rests on the rule of recency lists that counts what can have come to stand in
front of a key, and on three kinds of steps:
* a packet that does not reach the put moves nothing (`Windows.kept`);
* a packet that does puts its own hash in front of every other (`Windows.put`);
* a completion takes its own hash out and no other (`Windows.completed`).

`dedup_window` holds at every event of every trace and in both directions: inside the window a duplicate, outside it
none.  The witness has a capacity of two, where the window is two hashes wide.
-/
namespace Qos

open Runs

variable {S : Sokoban} {F : Type} [LinearOrder F] {signers ips sigCacheSize n : Nat}

inductive CacheCall (S : Sokoban) (F : Type) [LinearOrder F] (signers ips sigCacheSize : Nat)
  | process (packet : Packet) (recentSignatures : Option (Lru.Cache UInt64 Unit sigCacheSize))
      (model : IpSignerModel S F signers ips) (stats : Stats)
  -- a remaining meta consumed
  | complete (hash : UInt64)

inductive CacheEvent (F : Type)
  | processed (packet : Packet) (result : Except PacketProcessorError (ScoredTransaction F))
  | completed (hash : UInt64)

def reachedPut : Except PacketProcessorError (ScoredTransaction F) → Bool
  | .ok _ => true
  | .error e => e = .duplicatePacket

def CacheEvent.put (sdk : Sdk) : CacheEvent F → Option UInt64
  | .processed p result => if reachedPut result then (packetHash sdk p).toOption else none
  | .completed _ => none

/-- The distinct other hashes put in a stretch of events. -/
def othersPut (sdk : Sdk) (key : UInt64) (trace : List (CacheEvent F)) : Finset UInt64 :=
  (trace.filterMap (CacheEvent.put sdk)).toFinset.erase key

section Step

variable [One F] [Mul F] [Div F] [NatCast F] [OfScientific F]

def cacheStep (sdk : Sdk) (c : Lru.Cache UInt64 QoSPartialMeta n) :
    CacheCall S F signers ips sigCacheSize → Except Panic (CacheEvent F × Lru.Cache UInt64 QoSPartialMeta n)
  | .process packet recentSignatures model stats => do
    let r ← tryProcessPacket sdk packet recentSignatures model c stats
    return (.processed packet r.result, r.partialMetas)
  | .complete hash => return (.completed hash, (c.pop hash).2)

/-- **What an event did to the cache.** -/
inductive CacheStep (sdk : Sdk) (c : Lru.Cache UInt64 QoSPartialMeta n) :
    CacheEvent F → Lru.Cache UInt64 QoSPartialMeta n → Prop
  | kept (packet : Packet) (e : PacketProcessorError) (he : e ≠ .duplicatePacket) :
    CacheStep sdk c (.processed packet (.error e)) c
  | put (packet : Packet) (result : Except PacketProcessorError (ScoredTransaction F)) (key : UInt64)
      (partialMeta : QoSPartialMeta) (hput : CacheEvent.put sdk (.processed packet result) = some key)
      (hdup : result = .error .duplicatePacket ↔ c.contains key = true) :
    CacheStep sdk c (.processed packet result) (c.put key partialMeta).2
  | completed (hash : UInt64) : CacheStep sdk c (.completed hash) (c.pop hash).2

omit [LinearOrder F] [One F] [Mul F] [Div F] [NatCast F] [OfScientific F] in
theorem put_of_storable {sdk : Sdk} {packet : Packet} {key : UInt64} {partialMeta : QoSPartialMeta}
    {result : Except PacketProcessorError (ScoredTransaction F)} (hstore : Storable sdk packet key partialMeta)
    (hreached : reachedPut result = true) : CacheEvent.put sdk (.processed packet result) = some key := by
  simp only [CacheEvent.put, hreached, if_true, hstore.hash]
  rfl

theorem cacheStep_cases {sdk : Sdk} {c c' : Lru.Cache UInt64 QoSPartialMeta n}
    {call : CacheCall S F signers ips sigCacheSize} {event : CacheEvent F}
    (h : cacheStep sdk c call = .ok (event, c')) : CacheStep sdk c event c' := by
  cases call with
  | complete hash =>
    cases h
    exact .completed hash
  | process packet recentSignatures model stats =>
    obtain ⟨r, hr, h⟩ := bind_eq_ok h
    cases h
    rcases (tryProcessPacket_outcome hr).cache_cases with ⟨hcache, e, hresult, he⟩ | ⟨key, partialMeta, hstore, hcache,
      ⟨hresult, hpresent⟩ | ⟨⟨tx, hresult⟩, habsent⟩⟩
    · rw [hcache, hresult]
      exact .kept packet e he
    · rw [hcache, hresult]
      exact .put packet _ key partialMeta (put_of_storable hstore rfl) (by rw [Lru.Cache.contains_eq, hpresent]; simp)
    · rw [hcache, hresult]
      exact .put packet _ key partialMeta (put_of_storable hstore rfl) (by rw [Lru.Cache.contains_eq, habsent]; simp)

end Step

/-! ## The history of a hash -/

section History

variable {sdk : Sdk}

theorem split_append_one {α : Type} {l before after : List α} {a e : α} (h : l ++ [a] = before ++ e :: after) :
    (before = l ∧ e = a ∧ after = []) ∨ ∃ rest, l = before ++ e :: rest ∧ after = rest ++ [a] := by
  rcases List.eq_nil_or_concat after with rfl | ⟨rest, b, rfl⟩
  · obtain ⟨hl, ha⟩ := List.append_inj' h rfl
    cases ha
    exact Or.inl ⟨hl.symm, rfl, rfl⟩
  · rw [List.concat_eq_append, ← List.cons_append, ← List.append_assoc] at h
    obtain ⟨hl, ha⟩ := List.append_inj' h rfl
    cases ha
    exact Or.inr ⟨rest, hl, List.concat_eq_append⟩

def PutLast (sdk : Sdk) (key : UInt64) (trace : List (CacheEvent F)) : Prop :=
  ∃ before event after, trace = before ++ event :: after ∧ CacheEvent.put sdk event = some key ∧
    (∀ e ∈ after, CacheEvent.put sdk e ≠ some key) ∧ CacheEvent.completed key ∉ after

omit [LinearOrder F] in
theorem PutLast.append {key : UInt64} {trace : List (CacheEvent F)} {event : CacheEvent F} (h : PutLast sdk key trace)
    (hput : CacheEvent.put sdk event ≠ some key) (hcompleted : CacheEvent.completed key ≠ event) :
    PutLast sdk key (trace ++ [event]) := by
  obtain ⟨before, e, after, rfl, he, hafter, hnot⟩ := h
  refine ⟨before, e, after ++ [event], by simp, he, ?_, ?_⟩
  · intro e' he'
    rcases List.mem_append.1 he' with he' | he'
    · exact hafter e' he'
    · rw [List.mem_singleton.1 he']
      exact hput
  · intro hmem
    rcases List.mem_append.1 hmem with hmem | hmem
    · exact hnot hmem
    · exact hcompleted (List.mem_singleton.1 hmem)

omit [LinearOrder F] in
theorem othersPut_append (key : UInt64) (trace : List (CacheEvent F)) (event : CacheEvent F) :
    othersPut sdk key (trace ++ [event]) =
      othersPut sdk key trace ∪ (CacheEvent.put sdk event).toFinset.erase key := by
  unfold othersPut
  rw [List.filterMap_append, List.toFinset_append, Finset.erase_union_distrib]
  cases hput : CacheEvent.put sdk event with
  | none => simp [hput]
  | some k => simp [hput]

/-- **The cache and the history agree**: what was put stays behind fewer than `n` others, and what is stored was put and
not completed since. -/
structure Windows (sdk : Sdk) (trace : List (CacheEvent F)) (c : Lru.Cache UInt64 QoSPartialMeta n) : Prop where
  within : ∀ before event after key, trace = before ++ event :: after → CacheEvent.put sdk event = some key →
    CacheEvent.completed key ∉ after → c.view.Within key (othersPut sdk key after)
  last : ∀ key, c.contains key = true → PutLast sdk key trace

omit [LinearOrder F] in
theorem windows_new (hn : 0 < n) : Windows sdk ([] : List (CacheEvent F)) (Lru.Cache.new hn) where
  within := fun before event after key h => by simp at h
  last := fun key h => by
    rw [Lru.Cache.contains_eq, Lru.Cache.lookup_new] at h
    cases h

omit [LinearOrder F] in
theorem Windows.kept {trace : List (CacheEvent F)} {c : Lru.Cache UInt64 QoSPartialMeta n} {event : CacheEvent F}
    (h : Windows sdk trace c) (hput : CacheEvent.put sdk event = none) (hevent : ∀ key, .completed key ≠ event) :
    Windows sdk (trace ++ [event]) c := by
  refine ⟨?_, fun key hc => (h.last key hc).append (by rw [hput]; simp) (hevent key)⟩
  intro before event' after key hsplit hevent' hnot
  rcases split_append_one hsplit with ⟨-, rfl, -⟩ | ⟨rest, rfl, rfl⟩
  · rw [hput] at hevent'
    cases hevent'
  · rw [othersPut_append, hput]
    simpa using h.within before event' rest key rfl hevent' (fun hmem => hnot (List.mem_append.2 (Or.inl hmem)))

omit [LinearOrder F] in
theorem Windows.put {trace : List (CacheEvent F)} {c : Lru.Cache UInt64 QoSPartialMeta n} {event : CacheEvent F}
    {k : UInt64} (h : Windows sdk trace c) (hput : CacheEvent.put sdk event = some k)
    (hevent : ∀ key, .completed key ≠ event) (partialMeta : QoSPartialMeta) :
    Windows sdk (trace ++ [event]) (c.put k partialMeta).2 := by
  refine ⟨?_, ?_⟩
  · intro before event' after key hsplit hevent' hnot
    rw [(c.put_view _ _).2]
    by_cases hkk : k = key
    · subst hkk
      exact Recency.RecencyList.within_put_self _ _ _ _
    · rcases split_append_one hsplit with ⟨-, rfl, -⟩ | ⟨rest, rfl, rfl⟩
      · rw [hput] at hevent'
        exact absurd (Option.some.inj hevent') hkk
      · have hothers : othersPut sdk key (rest ++ [event]) = insert k (othersPut sdk key rest) := by
          rw [othersPut_append, hput, Option.toFinset_some, Finset.erase_eq_of_notMem (by simpa using Ne.symm hkk),
            Finset.union_comm, ← Finset.insert_eq]
        rw [hothers]
        exact (h.within before event' rest key rfl hevent'
          (fun hmem => hnot (List.mem_append.2 (Or.inl hmem)))).put partialMeta hkk
  · intro key hc
    by_cases hkk : key = k
    · subst hkk
      exact ⟨trace, _, [], rfl, hput, by simp, by simp⟩
    · rw [Lru.Cache.contains_eq] at hc
      obtain ⟨w, hw⟩ := Option.isSome_iff_exists.1 hc
      have hold : c.contains key = true := by
        rw [Lru.Cache.contains_eq, Lru.Cache.lookup_put_of_ne partialMeta hkk hw]
        rfl
      exact (h.last key hold).append (by rw [hput]; simpa using Ne.symm hkk) (hevent key)

omit [LinearOrder F] in
theorem Windows.completed {trace : List (CacheEvent F)} {c : Lru.Cache UInt64 QoSPartialMeta n}
    (h : Windows sdk trace c) (hash : UInt64) : Windows sdk (trace ++ [.completed hash]) (c.pop hash).2 := by
  refine ⟨?_, ?_⟩
  · intro before event after key hsplit hevent hnot
    rcases split_append_one hsplit with ⟨-, rfl, -⟩ | ⟨rest, rfl, rfl⟩
    · cases hevent
    · have hne : hash ≠ key := by
        rintro rfl
        exact hnot (by simp)
      rw [(c.pop_view _).2, othersPut_append]
      simpa [CacheEvent.put] using (h.within before event rest key rfl hevent
        (fun hmem => hnot (List.mem_append.2 (Or.inl hmem)))).pop hne
  · intro key hc
    rw [Lru.Cache.contains_eq, Lru.Cache.lookup_pop] at hc
    by_cases hkk : key = hash
    · rw [if_pos hkk] at hc
      cases hc
    · rw [if_neg hkk, ← Lru.Cache.contains_eq] at hc
      exact (h.last key hc).append (by simp [CacheEvent.put]) (by simpa using hkk)

omit [LinearOrder F] in
theorem Windows.step {trace : List (CacheEvent F)} {event : CacheEvent F} {c c' : Lru.Cache UInt64 QoSPartialMeta n}
    (h : Windows sdk trace c) (hstep : CacheStep sdk c event c') : Windows sdk (trace ++ [event]) c' := by
  cases hstep with
  | kept packet e he =>
    have hput : CacheEvent.put sdk (.processed packet (.error e) : CacheEvent F) = none := by
      simp [CacheEvent.put, reachedPut, he]
    exact h.kept hput (by simp)
  | put packet result k partialMeta hput hdup => exact h.put hput (by simp) partialMeta
  | completed hash => exact h.completed hash

/-- **What the history says of an event**: inside the window a packet that reaches the put is a duplicate, and a duplicate
has a put of its hash since which nothing was completed. -/
def Deduplicates (n : Nat) (sdk : Sdk) (trace : List (CacheEvent F)) (event : CacheEvent F) : Prop :=
  (∀ before first between key packet result, trace = before ++ first :: between →
    CacheEvent.put sdk first = some key → CacheEvent.completed key ∉ between → (othersPut sdk key between).card < n →
    event = .processed packet result → CacheEvent.put sdk event = some key → result = .error .duplicatePacket) ∧
  ∀ packet, event = .processed packet (.error .duplicatePacket) →
    ∃ key, packetHash sdk packet = .ok key ∧ PutLast sdk key trace

omit [LinearOrder F] in
theorem Windows.deduplicates {trace : List (CacheEvent F)} {event : CacheEvent F}
    {c c' : Lru.Cache UInt64 QoSPartialMeta n} (h : Windows sdk trace c) (hstep : CacheStep sdk c event c') :
    Deduplicates n sdk trace event := by
  cases hstep with
  | kept packet e he =>
    refine ⟨?_, ?_⟩
    · intro before first between key packet' result hsplit hfirst hnot hcard hevent hput
      simp [CacheEvent.put, reachedPut, he] at hput
    · intro packet' hevent
      cases hevent
      exact absurd rfl he
  | put packet result k partialMeta hput hdup =>
    refine ⟨?_, ?_⟩
    · intro before first between key packet' result' hsplit hfirst hnot hcard hevent hput'
      cases hevent
      obtain rfl : k = key := Option.some.inj (hput.symm.trans hput')
      rw [hdup, Lru.Cache.contains_view]
      exact (h.within before first between k hsplit hfirst hnot).contains hcard
    · intro packet' hevent
      cases hevent
      refine ⟨k, ?_, h.last k (hdup.1 rfl)⟩
      cases hhash : packetHash sdk packet with
      | error e => simp [CacheEvent.put, reachedPut, hhash, Except.toOption] at hput
      | ok k' => simpa [CacheEvent.put, reachedPut, hhash, Except.toOption] using hput
  | completed hash =>
    refine ⟨?_, ?_⟩
    · intro before first between key packet' result' hsplit hfirst hnot hcard hevent
      cases hevent
    · intro packet' hevent
      cases hevent

end History

section Window

variable [Zero F] [One F] [Mul F] [Div F] [NatCast F] [OfScientific F] {H : HeapCrate (ScoredTransaction F)}

theorem rejected_notQueued {sdk : Sdk} {q q' : QosState S H} {packet : Packet} {e : PacketProcessorError} {batch : Batch F}
    (h : q.packetTurn sdk packet = .ok (.packet packet (.error e) batch, q')) : q'.container = q.container := by
  cases QosState.packetTurn_cases h with
  | rejected r e hout hresult => rfl

/-- **The deduplication window.**  After a hash was put, as long as its meta was not consumed and fewer than `n` distinct
other hashes were put, every packet with that hash that reaches the put is a duplicate, and duplicates are not queued;
a duplicate is reported only for a hash that was put and not completed since its last put. -/
theorem dedup_window (hn : 1 ≤ n) (sdk : Sdk) (calls : List (CacheCall S F signers ips sigCacheSize))
    (trace : List (CacheEvent F)) (c : Lru.Cache UInt64 QoSPartialMeta n)
    (hrun : run (cacheStep sdk) (Lru.Cache.new hn) calls = .ok (trace, c)) :
    (∀ before first between packet result after key,
      trace = before ++ first :: between ++ CacheEvent.processed packet result :: after →
      CacheEvent.put sdk first = some key → CacheEvent.completed key ∉ between → (othersPut sdk key between).card < n →
      CacheEvent.put sdk (.processed packet result) = some key → result = .error .duplicatePacket) ∧
    (∀ before packet after, trace = before ++ CacheEvent.processed packet (.error .duplicatePacket) :: after →
      ∃ key, packetHash sdk packet = .ok key ∧ PutLast sdk key before) ∧
    ∀ (q q' : QosState S H) packet batch,
      q.packetTurn sdk packet = .ok (.packet packet (.error .duplicatePacket) batch, q') →
        q'.container = q.container := by
  have hevery := run_trace (Windows sdk) (Deduplicates n sdk)
    (fun trace c call event c' hc hstep => ⟨hc.step (cacheStep_cases hstep), hc.deduplicates (cacheStep_cases hstep)⟩)
    calls [] _ trace c (windows_new hn) hrun
  refine ⟨?_, ?_, fun q q' packet batch => rejected_notQueued⟩
  · intro before first between packet result after key hsplit hfirst hnot hcard hput
    have hat := hevery (before ++ first :: between) (.processed packet result) after hsplit
    rw [List.nil_append] at hat
    exact hat.1 before first between key packet result rfl hfirst hnot hcard rfl hput
  · intro before packet after hsplit
    have hat := hevery before _ after hsplit
    rw [List.nil_append] at hat
    exact hat.2 packet rfl

end Window

/-! ## A concrete window -/

/-- A parser that reads every payload as one transaction, and a hash that tells source addresses apart. -/
def acceptingSdk : Sdk where
  Unsanitized := Unit
  data := undiscarded
  tryNewUnsanitized := fun _ => some ()
  sanitize := fun _ => some ⟨[Vector.replicate 64 1], [someSigner], [], by decide⟩
  computeBudgetId := ⟨Vector.replicate 32 3⟩
  hash := fun bytes => UInt64.ofNat (leNat bytes.reverse)
  ticksPerMs := 1
  tsc := UInt64.ofNat
  data_eq := fun _ _ => undiscarded_eq

def CacheEvent.isDuplicate : CacheEvent ℚ → Bool
  | .processed _ (.error .duplicatePacket) => true
  | _ => false

/-- Capacity two: one other hash was put between two packets of one hash, and the second is a duplicate. -/
theorem dedup_window_two :
    ∃ trace c, run (cacheStep acceptingSdk) (Lru.Cache.new (by decide) : Lru.Cache UInt64 QoSPartialMeta 2)
        [.process (emptyPacket ⟨#v[1, 2, 3, 4]⟩) (none : Option (Lru.Cache UInt64 Unit 1))
          (.new [] [] : IpSignerModel sortedTree ℚ 16 16) {}, .process (emptyPacket ⟨#v[1, 2, 3, 5]⟩) none (.new [] []) {},
          .process (emptyPacket ⟨#v[1, 2, 3, 4]⟩) none (.new [] []) {}] = .ok (trace, c) ∧
      trace.map CacheEvent.isDuplicate = [false, false, true] ∧
      ∀ before packet after, trace = before ++ CacheEvent.processed packet (.error .duplicatePacket) :: after →
        ∃ key, packetHash acceptingSdk packet = .ok key ∧ PutLast acceptingSdk key before := by
  have heval : ((run (cacheStep acceptingSdk) (Lru.Cache.new (by decide) : Lru.Cache UInt64 QoSPartialMeta 2)
      [.process (emptyPacket ⟨#v[1, 2, 3, 4]⟩) (none : Option (Lru.Cache UInt64 Unit 1))
        (.new [] [] : IpSignerModel sortedTree ℚ 16 16) {}, .process (emptyPacket ⟨#v[1, 2, 3, 5]⟩) none (.new [] []) {},
        .process (emptyPacket ⟨#v[1, 2, 3, 4]⟩) none (.new [] []) {}]).toOption.map
      fun r => r.1.map CacheEvent.isDuplicate) = some [false, false, true] := by decide +kernel
  obtain ⟨⟨trace, c⟩, hok, hdup⟩ := Option.map_eq_some_iff.1 heval
  have hrun := ok_of_toOption hok
  exact ⟨trace, c, hrun, hdup, (dedup_window (H := scoreHeap) (by decide) acceptingSdk _ trace c hrun).2.1⟩

end Qos
