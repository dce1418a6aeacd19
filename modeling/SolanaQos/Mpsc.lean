import SolanaQos.Crates
import SolanaQos.Runs
/-!
# The many-producer channel (`mpsc/src/lib.rs`)

A consumer holds one receiving end for each sender and the index the next scan should start from.  `pop` splits the
ends there, but chains the two halves in the order they lie in, so every scan starts at the first end: the comment on
resuming the scan and the code differ.  `last` counts the ends that were visited as if the scan had started where it
should.

`pop_cases` says what a pop does, from any state: it takes the front message of the first channel that has one, counted
from channel 0, or finds that there is none.

`Resumes` is what the scan should do: the channel served is the first one with a message counted cyclically from
`last`.  A scan that starts anywhere but at the first channel does not resume (`zero_of_resumes`); so a pop resumes
only if its scan should have started at the front, or if it finds nothing.  Over a run, the pops are linked by the
state they leave, with pushes between them.  A channel that has a message at each of `len` pops in a row should be
served by one of them; it is exactly if at one of them no channel before it has a message, and it is if every one of
them should have started at the front (`clear_of_zero`).  `resumes_iff` states the single pop and the window together.
-/
namespace Qos
namespace Mpsc

open Runs

variable {T : Type} {que : QueCrate T}

structure Consumer (que : QueCrate T) where
  consumers : List que.Consumer
  last : Nat

/-- `find_map` over the ends: what it finds, how many ends it visits, and the ends it leaves. -/
def findPop : List que.Consumer → Option T × Nat × List que.Consumer
  | [] => (none, 0, [])
  | consumer :: rest =>
    match que.pop consumer with
    | (some x, consumer') => (some x, 1, consumer' :: rest)
    | (none, consumer') =>
      let (opt, visited, rest') := findPop rest
      (opt, visited + 1, consumer' :: rest')

def Consumer.pop (c : Consumer que) : Except Panic (Option T × Consumer que) :=
  let len := c.consumers.length
  if c.last ≤ len then
    let right := c.consumers.take c.last
    let left := c.consumers.drop c.last
    -- both halves are written in place
    let (opt, visited, consumers) := findPop (right ++ left)
    if len = 0 then .error .divideByZero else .ok (opt, ⟨consumers, (c.last + visited) % len⟩)
  else
    .error .outOfBounds

def bounded (consumers : List que.Consumer) : Consumer que := ⟨consumers, 0⟩

def Consumer.unread (c : Consumer que) : List (List T) := c.consumers.map que.unread

theorem Consumer.length_unread (c : Consumer que) : c.unread.length = c.consumers.length := List.length_map _

/-! ## One pop -/

theorem findPop_empty : ∀ {cs : List que.Consumer}, (∀ l ∈ cs.map que.unread, l = []) →
    ∃ cs', findPop cs = (none, cs.length, cs') ∧ cs'.map que.unread = cs.map que.unread
  | [], _ => ⟨[], rfl, rfl⟩
  | c :: cs, h => by
    obtain ⟨hc, hcs⟩ := List.forall_mem_cons.1 h
    obtain ⟨cs', hfind, hsame⟩ := findPop_empty hcs
    obtain ⟨hpop, hleft⟩ := que.pop_nil c hc
    refine ⟨(que.pop c).2 :: cs', ?_, ?_⟩
    · rw [findPop, hfind]
      split
      · rename_i x c' hx
        rw [hx] at hpop
        cases hpop
      · rename_i c' hx
        rw [hx]
        rfl
    · rw [List.map_cons, List.map_cons, hsame, hleft, hc]

theorem findPop_first : ∀ {cs : List que.Consumer} {j : Nat} {x : T} {rest : List T},
    (∀ i < j, (cs.map que.unread)[i]? = some []) → (cs.map que.unread)[j]? = some (x :: rest) →
    ∃ cs', findPop cs = (some x, j + 1, cs') ∧ cs'.map que.unread = (cs.map que.unread).set j rest
  | [], j, x, rest, _, h => by cases h
  | c :: cs, 0, x, rest, _, h => by
    have hc : que.unread c = x :: rest := by simpa using h
    obtain ⟨hpop, hleft⟩ := que.pop_cons c x rest hc
    refine ⟨(que.pop c).2 :: cs, ?_, by simp [hleft]⟩
    rw [findPop]
    split
    · rename_i y c' hy
      rw [hy] at hpop
      cases hpop
      rw [hy]
    · rename_i c' hy
      rw [hy] at hpop
      cases hpop
  | c :: cs, j + 1, x, rest, hbefore, h => by
    have hc : que.unread c = [] := by simpa using hbefore 0 (Nat.succ_pos j)
    obtain ⟨hpop, hleft⟩ := que.pop_nil c hc
    have hrest : ∀ i < j, (cs.map que.unread)[i]? = some [] := fun i hi => by
      simpa using hbefore (i + 1) (Nat.succ_lt_succ hi)
    obtain ⟨cs', hfind, hset⟩ := findPop_first hrest (by simpa using h)
    refine ⟨(que.pop c).2 :: cs', ?_, by simp [hset, hleft, hc]⟩
    rw [findPop, hfind]
    split
    · rename_i y c' hy
      rw [hy] at hpop
      cases hpop
    · rename_i c' hy
      rw [hy]

theorem exists_first {α : Type} : ∀ (ls : List (List α)), (∀ l ∈ ls, l = []) ∨
    ∃ (j : Nat) (x : α) (rest : List α), ls[j]? = some (x :: rest) ∧ ∀ i < j, ls[i]? = some []
  | [] => .inl (fun l hl => absurd hl List.not_mem_nil)
  | (x :: rest) :: ls => .inr ⟨0, x, rest, rfl, fun i hi => absurd hi (Nat.not_lt_zero i)⟩
  | [] :: ls => by
    rcases exists_first ls with h | ⟨j, x, rest, hj, hbefore⟩
    · exact .inl (List.forall_mem_cons.2 ⟨rfl, h⟩)
    · refine .inr ⟨j + 1, x, rest, hj, fun i hi => ?_⟩
      cases i with
      | zero => rfl
      | succ i => exact hbefore i (Nat.lt_of_succ_lt_succ hi)

/-- `Took c i m c'`: the pop that leads from `c` to `c'` took the front of channel `i` and nothing else. -/
def Took (c : Consumer que) (i : Nat) (m : Option T) (c' : Consumer que) : Prop :=
  ∃ x rest, c.unread[i]? = some (x :: rest) ∧ m = some x ∧ c'.unread = c.unread.set i rest

/-- **What a pop does**: it scans from the first channel, wherever the last scan stopped. -/
theorem pop_cases {c : Consumer que} (hlast : c.last < c.consumers.length) :
    ((∀ l ∈ c.unread, l = []) ∧ ∃ c', c.pop = .ok (none, c') ∧ c'.unread = c.unread ∧ c'.last = c.last) ∨
    ∃ (j : Nat) (x : T) (rest : List T) (c' : Consumer que), c.unread[j]? = some (x :: rest) ∧
      (∀ i < j, c.unread[i]? = some []) ∧ c.pop = .ok (some x, c') ∧
      c'.unread = c.unread.set j rest ∧ c'.last = (c.last + (j + 1)) % c.consumers.length := by
  have hlen : c.consumers.length ≠ 0 := Nat.ne_zero_of_lt hlast
  have hpop : ∀ opt visited cs', findPop c.consumers = (opt, visited, cs') →
      c.pop = .ok (opt, ⟨cs', (c.last + visited) % c.consumers.length⟩) := by
    intro opt visited cs' hfind
    unfold Consumer.pop
    dsimp only
    rw [if_pos (Nat.le_of_lt hlast), List.take_append_drop, hfind]
    exact if_neg hlen
  rcases exists_first c.unread with hempty | ⟨j, x, rest, hj, hbefore⟩
  · obtain ⟨cs', hfind, hsame⟩ := findPop_empty hempty
    refine .inl ⟨hempty, _, hpop _ _ _ hfind, hsame, ?_⟩
    change (c.last + c.consumers.length) % c.consumers.length = c.last
    rw [Nat.add_mod_right, Nat.mod_eq_of_lt hlast]
  · obtain ⟨cs', hfind, hset⟩ := findPop_first hbefore hj
    exact .inr ⟨j, x, rest, _, hj, hbefore, hpop _ _ _ hfind, hset, rfl⟩

/-- **A scan that resumes where the last one stopped**: the first channel with a message, counted cyclically from
`last`, gives its front message and the next scan starts one past it; with no message anywhere `last` stays. -/
def Resumes (c : Consumer que) : Prop :=
  ∃ m c', c.pop = .ok (m, c') ∧
    ((∀ l ∈ c.unread, l = []) → m = none ∧ c'.unread = c.unread ∧ c'.last = c.last) ∧
    ∀ k < c.consumers.length, (∀ i < k, c.unread[(c.last + i) % c.consumers.length]? = some []) →
      c.unread[(c.last + k) % c.consumers.length]? ≠ some [] →
        Took c ((c.last + k) % c.consumers.length) m c' ∧
          c'.last = ((c.last + k) % c.consumers.length + 1) % c.consumers.length

theorem took_unique {c c' : Consumer que} {i j : Nat} {m : Option T} (hi : Took c i m c') (hj : Took c j m c') :
    i = j := by
  obtain ⟨x, rest, hx, -, hset⟩ := hi
  obtain ⟨y, rest', hy, -, hset'⟩ := hj
  by_contra hne
  -- channel `i` has lost a message in one description and none in the other
  have hlt : i < c.unread.length := (List.getElem?_eq_some_iff.1 hx).1
  have hat := congrArg (fun l => l[i]?) (hset.symm.trans hset')
  simp only [List.getElem?_set_self hlt, List.getElem?_set_ne (Ne.symm hne), hx, Option.some.injEq] at hat
  exact absurd (congrArg List.length hat) (by rw [List.length_cons]; omega)

theorem resumes_of_empty {c : Consumer que} (hlast : c.last < c.consumers.length) (hempty : ∀ l ∈ c.unread, l = []) :
    Resumes c := by
  rcases pop_cases hlast with ⟨-, c', hpop, hsame, hstay⟩ | ⟨j, x, rest, c', hj, -⟩
  · refine ⟨none, c', hpop, fun _ => ⟨rfl, hsame, hstay⟩, fun k hk _ hfull => ?_⟩
    have hlt : (c.last + k) % c.consumers.length < c.unread.length := by
      rw [c.length_unread]
      exact Nat.mod_lt _ (Nat.zero_lt_of_lt hlast)
    rw [List.getElem?_eq_getElem hlt, hempty _ (List.getElem_mem hlt)] at hfull
    exact absurd rfl hfull
  · exact absurd (hempty _ (List.mem_of_getElem? hj)) (List.cons_ne_nil x rest)

theorem resumes_of_zero {c : Consumer que} (hlast : c.last < c.consumers.length) (hzero : c.last = 0) : Resumes c := by
  rcases pop_cases hlast with ⟨hempty, -⟩ | ⟨j, x, rest, c', hj, hbefore, hpop, hset, hnext⟩
  · exact resumes_of_empty hlast hempty
  · refine ⟨some x, c', hpop, fun hempty => ?_, fun k hk hfirst hfull => ?_⟩
    · exact absurd (hempty _ (List.mem_of_getElem? hj)) (List.cons_ne_nil x rest)
    have hcyc : ∀ i ≤ k, (c.last + i) % c.consumers.length = i := fun i hi => by
      rw [hzero, Nat.zero_add, Nat.mod_eq_of_lt (Nat.lt_of_le_of_lt hi hk)]
    have hkj : k = j := by
      rcases Nat.lt_trichotomy k j with hlt | heq | hgt
      · rw [hcyc k le_rfl] at hfull
        exact absurd (hbefore k hlt) hfull
      · exact heq
      · have := hfirst j hgt
        rw [hcyc j (Nat.le_of_lt hgt), hj] at this
        cases this
    rw [hcyc k le_rfl, hkj, hnext, hzero, Nat.zero_add]
    exact ⟨⟨x, rest, hj, rfl, hset⟩, rfl⟩

theorem exists_cyclic {len last j : Nat} (hlast : last < len) (hj : j < len) :
    ∃ k < len, (last + k) % len = j := by
  rcases Nat.le_total last j with h | h
  · exact ⟨j - last, by omega, by rw [Nat.add_sub_cancel' h, Nat.mod_eq_of_lt hj]⟩
  · rcases Nat.eq_or_lt_of_le h with rfl | h
    · exact ⟨0, by omega, Nat.mod_eq_of_lt hj⟩
    · exact ⟨len - last + j, by omega, by
        rw [← Nat.add_assoc, Nat.add_sub_cancel' (Nat.le_of_lt hlast), Nat.add_mod_left, Nat.mod_eq_of_lt hj]⟩

theorem exists_first_cyclic {c : Consumer que} (hlast : c.last < c.consumers.length) {j : Nat} {x : T} {rest : List T}
    (hj : c.unread[j]? = some (x :: rest)) :
    ∃ k < c.consumers.length, (∀ i < k, c.unread[(c.last + i) % c.consumers.length]? = some []) ∧
      c.unread[(c.last + k) % c.consumers.length]? ≠ some [] := by
  have hlt : j < c.consumers.length := by
    rw [← c.length_unread]
    exact (List.getElem?_eq_some_iff.1 hj).1
  obtain ⟨k₀, hk₀, hat⟩ := exists_cyclic hlast hlt
  have hex : ∃ k, c.unread[(c.last + k) % c.consumers.length]? ≠ some [] := ⟨k₀, by rw [hat, hj]; simp⟩
  classical
  refine ⟨Nat.find hex, ?_, fun i hi => ?_, Nat.find_spec hex⟩
  · exact Nat.lt_of_le_of_lt (Nat.find_min' hex (by rw [hat, hj]; simp)) hk₀
  · exact not_not.1 (Nat.find_min hex hi)

/-- A scan that starts anywhere but at the first channel does not resume: its `last` counts the channels it visited from
the front as if it had started at the old `last`. -/
theorem zero_of_resumes {c : Consumer que} (hlast : c.last < c.consumers.length) (h : Resumes c) :
    c.last = 0 ∨ ∀ l ∈ c.unread, l = [] := by
  rcases pop_cases hlast with ⟨hempty, -⟩ | ⟨j, x, rest, c', hj, -, hpop, hset, hnext⟩
  · exact .inr hempty
  · obtain ⟨m, c'', hpop', -, hcyclic⟩ := h
    rw [hpop] at hpop'
    cases hpop'
    obtain ⟨k, hk, hfirst, hfull⟩ := exists_first_cyclic hlast hj
    obtain ⟨htook, hnext'⟩ := hcyclic k hk hfirst hfull
    have hjk : (c.last + k) % c.consumers.length = j := took_unique htook ⟨x, rest, hj, rfl, hset⟩
    rw [hnext, hjk] at hnext'
    have hmod : (c.last + (j + 1)) % c.consumers.length = (0 + (j + 1)) % c.consumers.length := by
      rw [hnext', Nat.zero_add]
    have hzero : c.last % c.consumers.length = 0 % c.consumers.length := Nat.ModEq.add_right_cancel' (j + 1) hmod
    rw [Nat.mod_eq_of_lt hlast, Nat.zero_mod] at hzero
    exact .inl hzero

/-! ## Runs -/

/-- A sender may leave anything in its channel between two pops. -/
inductive Event (que : QueCrate T)
  | send (i : Nat) (channel : que.Consumer)
  | pop

structure Pop (que : QueCrate T) where
  before : Consumer que
  message : Option T
  after : Consumer que

def Consumer.step (c : Consumer que) : Event que → Except Panic (Option (Pop que) × Consumer que)
  | .send i channel => .ok (none, { c with consumers := c.consumers.set i channel })
  | .pop => do
    let (message, c') ← c.pop
    .ok (some ⟨c, message, c'⟩, c')

def Pop.Valid (len : Nat) (p : Pop que) : Prop :=
  p.before.consumers.length = len ∧ p.before.last < len ∧ p.before.pop = .ok (p.message, p.after)

/-- The pops so far are valid, each starts its scan from the `last` of the one before, and the state still has the `last`
of the latest. -/
def Linked (len : Nat) (pops : List (Pop que)) (c : Consumer que) : Prop :=
  c.consumers.length = len ∧ c.last < len ∧ (∀ p ∈ pops, p.Valid len) ∧
    pops.IsChain (fun p q => q.before.last = p.after.last) ∧ ∀ p ∈ pops.getLast?, c.last = p.after.last

theorem pop_total {c : Consumer que} (hlast : c.last < c.consumers.length) :
    ∃ m c', c.pop = .ok (m, c') ∧ c'.consumers.length = c.consumers.length ∧ c'.last < c'.consumers.length := by
  rcases pop_cases hlast with ⟨-, c', hpop, hsame, hstay⟩ | ⟨j, x, rest, c', -, -, hpop, hset, hnext⟩
  · have hlen : c'.consumers.length = c.consumers.length := by
      rw [← c'.length_unread, hsame, c.length_unread]
    exact ⟨none, c', hpop, hlen, by rw [hstay, hlen]; exact hlast⟩
  · have hlen : c'.consumers.length = c.consumers.length := by
      rw [← c'.length_unread, hset, List.length_set, c.length_unread]
    exact ⟨some x, c', hpop, hlen, by rw [hnext, hlen]; exact Nat.mod_lt _ (Nat.zero_lt_of_lt hlast)⟩

theorem step_total (c : Consumer que) (e : Event que) (hlast : c.last < c.consumers.length) :
    ∃ o c', c.step e = .ok (o, c') ∧ c'.last < c'.consumers.length := by
  cases e with
  | send i channel => exact ⟨none, _, rfl, by rw [List.length_set]; exact hlast⟩
  | pop =>
    obtain ⟨m, c', hpop, -, hlast'⟩ := pop_total hlast
    exact ⟨_, c', by rw [Consumer.step, hpop]; rfl, hlast'⟩

theorem step_linked {len : Nat} {os : List (Option (Pop que))} {c c' : Consumer que} {e : Event que}
    {o : Option (Pop que)} (hI : Linked len os.reduceOption c) (h : c.step e = .ok (o, c')) :
    Linked len (os ++ [o]).reduceOption c' := by
  obtain ⟨hlen, hlast, hvalid, hchain, hlatest⟩ := hI
  rw [List.reduceOption_append]
  cases e with
  | send i channel =>
    cases h
    rw [List.reduceOption_cons_of_none, List.reduceOption_nil, List.append_nil]
    exact ⟨by rw [List.length_set]; exact hlen, hlast, hvalid, hchain, hlatest⟩
  | pop =>
    obtain ⟨⟨m, c₁⟩, hpop, h⟩ := bind_eq_ok h
    cases h
    obtain ⟨m', c₁', hpop', hlen', hlast'⟩ := pop_total (hlen.symm ▸ hlast)
    rw [hpop] at hpop'
    cases hpop'
    rw [List.reduceOption_cons_of_some, List.reduceOption_nil]
    refine ⟨hlen'.trans hlen, (hlen'.trans hlen) ▸ hlast', ?_, List.isChain_append.2 ⟨hchain, .singleton _, ?_⟩, ?_⟩
    · intro p hp
      rcases List.mem_append.1 hp with hp | hp
      · exact hvalid p hp
      · rw [List.mem_singleton.1 hp]
        exact ⟨hlen, hlast, hpop⟩
    · rintro p hp q ⟨⟩
      exact hlatest p hp
    · intro p hp
      rw [List.getLast?_append, List.getLast?_singleton] at hp
      cases hp
      rfl

/-- **A successful pop serves the waiting channel that no other comes before.** -/
theorem took_iff {len : Nat} {p : Pop que} (hp : p.Valid len) {i : Nat} {x : T} {rest : List T}
    (hi : p.before.unread[i]? = some (x :: rest)) :
    Took p.before i p.message p.after ↔ ∀ j < i, p.before.unread[j]? = some [] := by
  obtain ⟨hlen, hlast, hpop⟩ := hp
  rcases pop_cases (hlen.symm ▸ hlast) with ⟨hempty, -⟩ | ⟨j, y, rest', c', hj, hbefore, hpop', hset, -⟩
  · exact absurd (hempty _ (List.mem_of_getElem? hi)) (List.cons_ne_nil x rest)
  rw [hpop] at hpop'
  obtain ⟨hm, ha⟩ := Prod.mk.inj (Except.ok.inj hpop')
  have htook : Took p.before j p.message p.after := ⟨y, rest', hj, hm, ha ▸ hset⟩
  constructor
  · intro h
    rw [took_unique h htook]
    exact hbefore
  · intro hclear
    have hij : i = j := by
      rcases Nat.lt_trichotomy i j with hlt | heq | hgt
      · have := hbefore i hlt
        rw [hi] at this
        cases this
      · exact heq
      · have := hclear j hgt
        rw [hj] at this
        cases this
    exact hij ▸ htook

/-- If every scan of the window starts where it should, no channel comes before the one that always waits: the first
scan starts at the front, and it stops short of the end only if the second one starts elsewhere. -/
theorem clear_of_zero {pops : List (Pop que)} {c : Consumer que} {len i : Nat} (hlinked : Linked len pops c)
    (hwindow : pops.length = len) (hlen : 0 < len) (hwait : ∀ p ∈ pops, ∃ x rest, p.before.unread[i]? = some (x :: rest))
    (hzero : ∀ p ∈ pops, p.before.last = 0 ∨ ∀ l ∈ p.before.unread, l = []) :
    ∃ p ∈ pops, ∀ j < i, p.before.unread[j]? = some [] := by
  obtain ⟨-, -, hvalid, hchain, -⟩ := hlinked
  have hfront : ∀ p ∈ pops, p.before.last = 0 := by
    intro p hp
    obtain ⟨x, rest, hi⟩ := hwait p hp
    exact (hzero p hp).resolve_right fun hempty => List.cons_ne_nil x rest (hempty _ (List.mem_of_getElem? hi))
  match pops, hwindow with
  | [], hwindow => exact absurd hwindow.symm (Nat.ne_of_gt hlen)
  | p :: rest, hwindow =>
    refine ⟨p, List.mem_cons_self, ?_⟩
    obtain ⟨hplen, hplast, hpop⟩ := hvalid p List.mem_cons_self
    obtain ⟨x, xs, hi⟩ := hwait p List.mem_cons_self
    have hilt : i < len := by
      rw [← hplen, ← Consumer.length_unread]
      exact (List.getElem?_eq_some_iff.1 hi).1
    rcases pop_cases (hplen.symm ▸ hplast) with ⟨hempty, -⟩ | ⟨j, y, ys, c', hj, hbefore, hpop', -, hnext⟩
    · exact absurd (hempty _ (List.mem_of_getElem? hi)) (List.cons_ne_nil x xs)
    rw [hpop] at hpop'
    obtain ⟨-, ha⟩ := Prod.mk.inj (Except.ok.inj hpop')
    suffices hij : i ≤ j from fun k hk => hbefore k (Nat.lt_of_lt_of_le hk hij)
    match rest, hwindow with
    | [], hwindow =>
      rw [← hwindow] at hilt
      exact Nat.le_trans (Nat.le_of_lt_succ hilt) (Nat.zero_le j)
    | q :: _, hwindow =>
      have hq : q.before.last = p.after.last := (List.isChain_cons_cons.1 hchain).1
      have hjlt : j < len := by
        rw [← hplen, ← Consumer.length_unread]
        exact (List.getElem?_eq_some_iff.1 hj).1
      -- the second scan starts at the front, so the first one went through to the last channel
      rw [ha, hnext, hfront p List.mem_cons_self, hfront q (by simp), hplen, Nat.zero_add] at hq
      have hend : len ≤ j + 1 := Nat.le_of_dvd (Nat.succ_pos j) (Nat.dvd_of_mod_eq_zero hq.symm)
      omega

/-- **When a scan resumes where the last one stopped**: exactly when that was the front, or there is nothing to find.
Over a window of as many pops as there are channels, a channel that always waits is served exactly if one of the pops
finds every channel before it empty; windows in which every scan resumes are fair. -/
theorem resumes_iff {c : Consumer que} (hlast : c.last < c.consumers.length) :
    (Resumes c ↔ c.last = 0 ∨ ∀ l ∈ c.unread, l = []) ∧
    ∀ es, ∃ os c', run Consumer.step c es = .ok (os, c') ∧
      (os.reduceOption.length = c.consumers.length →
        ∀ i, (∀ p ∈ os.reduceOption, ∃ x rest, p.before.unread[i]? = some (x :: rest)) →
          ((∃ p ∈ os.reduceOption, Took p.before i p.message p.after) ↔
            ∃ p ∈ os.reduceOption, ∀ j < i, p.before.unread[j]? = some []) ∧
          ((∀ p ∈ os.reduceOption, p.before.last = 0 ∨ ∀ l ∈ p.before.unread, l = []) →
            ∃ p ∈ os.reduceOption, Took p.before i p.message p.after)) := by
  refine ⟨⟨zero_of_resumes hlast, fun h => h.elim (resumes_of_zero hlast) (resumes_of_empty hlast)⟩, fun es => ?_⟩
  obtain ⟨os, c', hrun, -⟩ := run_total (fun _ => True) (fun c : Consumer que => c.last < c.consumers.length)
    (fun c e _ h => step_total c e h) es c (fun _ _ => trivial) hlast
  refine ⟨os, c', hrun, fun hwindow i hwait => ?_⟩
  have hlinked : Linked c.consumers.length os.reduceOption c' := by
    have h₀ : Linked c.consumers.length ([] : List (Option (Pop que))).reduceOption c := by
      refine ⟨rfl, hlast, ?_, .nil, ?_⟩ <;> simp
    exact run_hist (fun os s => Linked c.consumers.length os.reduceOption s)
      (fun h s e o s' hI hstep => step_linked hI hstep) es [] c os c' h₀ hrun
  have hiff : (∃ p ∈ os.reduceOption, Took p.before i p.message p.after) ↔
      ∃ p ∈ os.reduceOption, ∀ j < i, p.before.unread[j]? = some [] := by
    apply exists_congr
    intro p
    apply and_congr_right
    intro hp
    obtain ⟨x, rest, hi⟩ := hwait p hp
    exact took_iff (hlinked.2.2.1 p hp) hi
  exact ⟨hiff, fun hzero => hiff.2 (clear_of_zero hlinked hwindow (Nat.zero_lt_of_lt hlast) hwait hzero)⟩

/-- Two channels with messages, `last` at the second: no scan that resumes. -/
theorem resumes_iff_two : ¬ Resumes (⟨[[2, 3], [9]], 1⟩ : Consumer (listQue Nat)) := by
  intro h
  rcases (resumes_iff (c := (⟨[[2, 3], [9]], 1⟩ : Consumer (listQue Nat))) (by decide)).1.1 h with hzero | hempty
  · cases hzero
  · exact absurd (hempty [2, 3] (by decide)) (by decide)

/-- **The first channel shadows the second.**  Two pops of a fresh consumer both take from the first channel, though
`last` points to the second before the second pop and the second channel waits throughout. -/
theorem pop_starts_at_front :
    run Consumer.step (bounded [[1, 2, 3], [9]] : Consumer (listQue Nat)) [.pop, .pop] =
        .ok ([some ⟨⟨[[1, 2, 3], [9]], 0⟩, some 1, ⟨[[2, 3], [9]], 1⟩⟩,
          some ⟨⟨[[2, 3], [9]], 1⟩, some 2, ⟨[[3], [9]], 0⟩⟩], ⟨[[3], [9]], 0⟩) ∧
      ¬ Resumes (⟨[[2, 3], [9]], 1⟩ : Consumer (listQue Nat)) ∧
      ¬ Took (⟨[[1, 2, 3], [9]], 0⟩ : Consumer (listQue Nat)) 1 (some 1) ⟨[[2, 3], [9]], 1⟩ ∧
      ¬ Took (⟨[[2, 3], [9]], 1⟩ : Consumer (listQue Nat)) 1 (some 2) ⟨[[3], [9]], 0⟩ := by
  refine ⟨rfl, fun h => ?_, ?_, ?_⟩
  · rcases zero_of_resumes (by decide) h with hzero | hempty
    · cases hzero
    · exact absurd (hempty [2, 3] (by decide)) (by decide)
  · rintro ⟨x, rest, hx, hm, -⟩
    cases hx
    cases hm
  · rintro ⟨x, rest, hx, hm, -⟩
    cases hx
    cases hm

end Mpsc
end Qos
