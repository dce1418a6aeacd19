import SolanaQos.Score
/-!
# The two trees of a dimension mirror each other

A table stands for a partial score function: `Represents t f` says that the forward tree is `f` and that the inverse
tree is the graph of `f`.  Every operation of the model is one update of `f`, rejected inserts included: both trees of
a pair have the same size and the same capacity, so a full pair refuses on both sides.

Each operation has a lemma that says which update it is:
* a penalty rewrites one value (`Represents.feedback`), through a removal and an insert that finds the slot just freed
  (`Represents.rescore`);
* an added score rewrites or extends (`Represents.addScore`, `Represents.insertBoth`);
* a prune forgets keys, and never meets an empty tree or a missing partner (`Represents.prune`);
* a batch averages the tracked keys and extends by candidates (`Represents.updateScores`), loop by loop
  (`Represents.updateTracked`, `Represents.insertCandidates`, and `Represents.averaged` between the two).

`Mirrors` is what the claim asks of a table: the same entries, one inverse entry for each tracked key, the same size.
It follows from any `f` (`Represents.mirrors`).  `IpSignerModel.Consistent` puts the two dimensions together, each step
of a run of the five operations keeps it (`IpSignerModel.Consistent.step`), and so no run panics or lets the trees
drift apart (`ipSignerModel_mirrors`).
-/
namespace Qos

open Runs Function

variable {S : Sokoban} {F α : Type} {m : Nat} [LinearOrder F] [LinearOrder α]

namespace ScoreTable

omit [LinearOrder F] [LinearOrder α] in
theorem entry_inj {s s' : F} {k k' : α} : entry s k = entry s' k' ↔ s = s' ∧ k = k' := by
  simp [entry]

omit [LinearOrder F] [LinearOrder α] in
theorem entry_eta (e : F ×ₗ α) : entry (ofLex e).1 (ofLex e).2 = e := rfl

/-- The forward tree is `f`, the inverse tree its graph. -/
structure Tracks (t : ScoreTable S F α m) (f : α → Option F) : Prop where
  score : ∀ k, S.get t.score k = f k
  inverse : ∀ s k, (S.get t.inverse (entry s k)).isSome ↔ f k = some s

/-- **The table holds the scores `f`**, once by key and once by score. -/
structure Represents (t : ScoreTable S F α m) (f : α → Option F) : Prop where
  score : ∀ k, S.get t.score k = f k
  inverse : ∀ s k, (S.get t.inverse (entry s k)).isSome ↔ f k = some s
  bounded : (S.keys t.inverse).length ≤ S.capacity m

theorem Represents.tracks {t : ScoreTable S F α m} {f : α → Option F} (h : Represents t f) : Tracks t f :=
  ⟨h.score, h.inverse⟩

theorem Tracks.represents {t : ScoreTable S F α m} {f : α → Option F} (h : Tracks t f)
    (hb : (S.keys t.inverse).length ≤ S.capacity m) : Represents t f :=
  ⟨h.score, h.inverse, hb⟩

theorem Represents.empty : Represents (empty : ScoreTable S F α m) (fun _ => none) where
  score := fun k => S.get_new k
  inverse := fun s k => by simp [ScoreTable.empty, S.get_new]
  bounded := by
    unfold ScoreTable.empty
    rw [Sokoban.length_new]
    exact Nat.zero_le _

theorem Tracks.mem_support {t : ScoreTable S F α m} {f : α → Option F} (h : Tracks t f) (e : F ×ₗ α) :
    e ∈ Sokoban.support t.inverse ↔ f (ofLex e).2 = some (ofLex e).1 := by
  rw [Sokoban.mem_support, ← h.inverse, entry_eta]

omit [LinearOrder F] [LinearOrder α] in
theorem card_graph {entries : Finset (F ×ₗ α)} {keys : Finset α} {f : α → Option F}
    (hentries : ∀ e, e ∈ entries ↔ f (ofLex e).2 = some (ofLex e).1) (hkeys : ∀ k, k ∈ keys ↔ (f k).isSome) :
    entries.card = keys.card := by
  refine Finset.card_nbij (fun e => (ofLex e).2) ?_ ?_ ?_
  · intro e he
    rw [Finset.mem_coe, hentries] at he
    rw [Finset.mem_coe, hkeys, he]
    rfl
  · intro e he e' he' hk
    rw [Finset.mem_coe, hentries] at he he'
    simp only at hk
    rw [hk, he'] at he
    rw [← entry_eta e, ← entry_eta e', entry_inj]
    exact ⟨(Option.some.inj he).symm, hk⟩
  · intro k hk
    rw [Finset.mem_coe, hkeys] at hk
    obtain ⟨s, hs⟩ := Option.isSome_iff_exists.1 hk
    exact ⟨entry s k, by rw [Finset.mem_coe, hentries]; exact hs, rfl⟩

theorem Tracks.length_eq {t : ScoreTable S F α m} {f : α → Option F} (h : Tracks t f) :
    (S.keys t.inverse).length = (S.keys t.score).length := by
  rw [← Sokoban.card_support, ← Sokoban.card_support]
  exact card_graph h.mem_support fun k => by rw [Sokoban.mem_support, h.score]

theorem Tracks.length_congr {t t' : ScoreTable S F α m} {f f' : α → Option F} (h : Tracks t f) (h' : Tracks t' f')
    (hsame : ∀ k, (f' k).isSome = (f k).isSome) : (S.keys t'.inverse).length = (S.keys t.inverse).length := by
  rw [h.length_eq, h'.length_eq, ← Sokoban.card_support, ← Sokoban.card_support]
  congr 1
  ext k
  rw [Sokoban.mem_support, Sokoban.mem_support, h.score, h'.score, hsame]

theorem Tracks.forget {t : ScoreTable S F α m} {f : α → Option F} (h : Tracks t f) {k : α} {s : F}
    (hk : f k = some s) :
    Tracks (⟨S.remove t.score k, S.remove t.inverse (entry s k)⟩ : ScoreTable S F α m) (update f k none) where
  score := fun k' => by
    rw [S.get_remove, h.score, update_apply]
  inverse := fun s' k' => by
    rw [S.get_remove, update_apply]
    by_cases hkk : k' = k
    · subst hkk
      by_cases hs : s' = s
      · simp [hs]
      · have hne : ¬ (entry s' k' = entry s k') := by simp [entry_inj, hs]
        rw [if_neg hne, if_pos rfl, h.inverse, hk]
        simp [Ne.symm hs]
    · rw [if_neg (by simp [entry_inj, hkk]), if_neg hkk, h.inverse]

theorem Represents.room {t : ScoreTable S F α m} {f : α → Option F} (h : Represents t f) {k : α} {s : F}
    (hk : f k = some s) : (S.keys (S.remove t.inverse (entry s k))).length < S.capacity m := by
  have hmem : entry s k ∈ Sokoban.support t.inverse := (h.tracks.mem_support _).2 hk
  have hpos := Finset.card_pos.2 ⟨_, hmem⟩
  have hb := h.bounded
  rw [← Sokoban.card_support] at hb ⊢
  rw [Sokoban.support_remove, Finset.card_erase_of_mem hmem]
  omega

theorem Represents.forget {t : ScoreTable S F α m} {f : α → Option F} (h : Represents t f) {k : α} {s : F}
    (hk : f k = some s) :
    Represents (⟨S.remove t.score k, S.remove t.inverse (entry s k)⟩ : ScoreTable S F α m) (update f k none) :=
  (h.tracks.forget hk).represents (le_of_lt (h.room hk))

theorem Represents.extend {t : ScoreTable S F α m} {f : α → Option F} (h : Represents t f) {k : α} (s : F)
    {score : S.Tree α F m} (hscore : ∀ k', S.get score k' = update f k (some s) k') (hk : f k = none)
    (hroom : (S.keys t.inverse).length < S.capacity m) :
    Represents (⟨score, S.insert t.inverse (entry s k) ()⟩ : ScoreTable S F α m) (update f k (some s)) where
  score := hscore
  inverse := fun s' k' => by
    rw [S.get_insert _ _ _ _ (Or.inr hroom), update_apply]
    by_cases hkk : k' = k
    · subst hkk
      by_cases hs : s' = s
      · simp [hs]
      · rw [if_neg (by simp [entry_inj, hs]), if_pos rfl, h.inverse, hk]
        simp [Ne.symm hs]
    · rw [if_neg (by simp [entry_inj, hkk]), if_neg hkk, h.inverse]
  bounded := by
    rw [← Sokoban.card_support, Sokoban.support_insert _ _ _ (Or.inr hroom)]
    refine le_trans (Finset.card_insert_le _ _) ?_
    rw [Sokoban.card_support]
    omega

theorem Represents.rescore {t : ScoreTable S F α m} {f : α → Option F} (h : Represents t f) {k : α} {old : F}
    (new : F) (hk : f k = some old) : Represents (t.rescore k old new) (update f k (some new)) := by
  have hset : ∀ k', S.get (S.set t.score k new) k' = update (update f k none) k (some new) k' := by
    intro k'
    rw [S.get_set _ _ _ _ (by rw [h.score, hk]; rfl), update_idem, update_apply, h.score]
  have := (h.forget hk).extend new hset (update_self k none f) (h.room hk)
  rwa [update_idem] at this

theorem Represents.insertBoth {t : ScoreTable S F α m} {f : α → Option F} (h : Represents t f) {k : α} (s : F)
    (hk : f k = none) :
    ((S.keys t.inverse).length < S.capacity m ∧ Represents (t.insertBoth k s) (update f k (some s))) ∨
      ((S.keys t.inverse).length = S.capacity m ∧ t.insertBoth k s = t) := by
  by_cases hroom : (S.keys t.inverse).length < S.capacity m
  · left
    refine ⟨hroom, h.extend s (fun k' => ?_) hk hroom⟩
    rw [S.get_insert _ _ _ _ (Or.inr (by rw [← h.tracks.length_eq]; exact hroom)), update_apply, h.score]
  · right
    refine ⟨le_antisymm h.bounded (not_lt.1 hroom), ?_⟩
    have hscore := S.insert_full t.score k s (by rw [h.score, hk]) (by rw [← h.tracks.length_eq]; exact hroom)
    have hinv := S.insert_full t.inverse (entry s k) ()
      (by rw [← Option.not_isSome_iff_eq_none, h.inverse, hk]; simp) hroom
    unfold ScoreTable.insertBoth
    rw [hscore, hinv]

theorem Represents.addScore {t : ScoreTable S F α m} {f : α → Option F} (h : Represents t f) (k : α) (s : F) :
    ∃ f', Represents (t.addScore k s) f' := by
  unfold ScoreTable.addScore
  cases hk : S.get t.score k with
  | none =>
    rw [h.score] at hk
    rcases h.insertBoth s hk with ⟨-, h'⟩ | ⟨-, he⟩
    · exact ⟨_, h'⟩
    · exact ⟨f, by simpa only [he] using h⟩
  | some old =>
    rw [h.score] at hk
    rcases (h.forget hk).insertBoth s (update_self k none f) with ⟨-, h'⟩ | ⟨-, he⟩
    · exact ⟨_, h'⟩
    · exact ⟨_, by simpa only [he] using h.forget hk⟩

theorem Represents.feedback [Mul F] [OfScientific F] {t : ScoreTable S F α m} {f : α → Option F}
    (h : Represents t f) (k : α) : Represents (t.feedback k) (update f k ((f k).map (· * 0.01))) := by
  unfold ScoreTable.feedback
  rw [h.score]
  cases hk : f k with
  | none =>
    have hsame : update f k none = f := by rw [← hk, update_eq_self]
    rw [Option.map_none, hsame]
    exact h
  | some s => exact h.rescore (s * 0.01) hk

/-! ## Pruning -/

theorem Tracks.removeRoot {t : ScoreTable S F α m} {f : α → Option F} (h : Tracks t f) {e : F ×ₗ α}
    {inverse : S.Tree (F ×ₗ α) Unit m} (hr : S.removeRoot t.inverse = some (e, inverse)) :
    f (ofLex e).2 = some (ofLex e).1 ∧
      Tracks (⟨S.remove t.score (ofLex e).2, inverse⟩ : ScoreTable S F α m) (update f (ofLex e).2 none) := by
  obtain ⟨he, hget⟩ := S.removeRoot_some _ _ _ hr
  have hfe : f (ofLex e).2 = some (ofLex e).1 := (h.mem_support e).1 ((Sokoban.mem_support _ _).2 he)
  -- the removed root has the gets of a plain removal
  have hsame : ∀ e', S.get inverse e' = S.get (S.remove t.inverse e) e' := by
    intro e'
    rw [hget, S.get_remove]
  have hforget := h.forget hfe
  exact ⟨hfe, hforget.score, fun s k => by rw [hsame]; exact hforget.inverse s k⟩

theorem pruneLoop_succ {n : Nat} {t : ScoreTable S F α m} (hn : n + 1 ≤ (S.keys t.inverse).length) :
    ∃ e inverse, S.removeRoot t.inverse = some (e, inverse) ∧
      (S.keys inverse).length + 1 = (S.keys t.inverse).length ∧
      ScoreTable.pruneLoop (n + 1) t = ScoreTable.pruneLoop n ⟨S.remove t.score (ofLex e).2, inverse⟩ := by
  cases hr : S.removeRoot t.inverse with
  | none =>
    rw [S.removeRoot_none _ hr] at hn
    exact absurd hn (by simp)
  | some r => exact ⟨r.1, r.2, rfl, Sokoban.length_removeRoot hr, by rw [ScoreTable.pruneLoop, hr]⟩

theorem prune_of_le {t : ScoreTable S F α m} {num : Nat} (h : (S.keys t.inverse).length ≤ num) :
    t.prune num = .ok t := by
  unfold ScoreTable.prune
  rw [Nat.sub_eq_zero_of_le h]
  rfl

theorem Tracks.pruneLoop : ∀ (n : Nat) {t : ScoreTable S F α m} {f : α → Option F}, Tracks t f →
    n ≤ (S.keys t.inverse).length →
    ∃ t' f', pruneLoop n t = .ok t' ∧ Tracks t' f' ∧ (∀ k, f' k = f k ∨ f' k = none) ∧
      (S.keys t'.inverse).length + n = (S.keys t.inverse).length
  | 0, t, f, h, _ => ⟨t, f, rfl, h, fun k => Or.inl rfl, rfl⟩
  | n + 1, t, f, h, hn => by
    obtain ⟨e, inverse, hr, hlen, heq⟩ := pruneLoop_succ hn
    obtain ⟨-, h₁⟩ := h.removeRoot hr
    obtain ⟨t', f', e', h', hsub, hlen'⟩ := Tracks.pruneLoop n h₁ (by simp only; omega)
    refine ⟨t', f', heq.trans e', h', fun k => ?_, by simp only at hlen'; omega⟩
    rcases hsub k with hk | hk
    · by_cases hkk : k = (ofLex e).2
      · exact Or.inr (by rw [hk, hkk, update_self])
      · exact Or.inl (by rw [hk, update_of_ne hkk])
    · exact Or.inr hk

theorem Represents.prune {t : ScoreTable S F α m} {f : α → Option F} (h : Represents t f) (num : Nat) :
    ∃ t' f', t.prune num = .ok t' ∧ Represents t' f' ∧ (∀ k, f' k = f k ∨ f' k = none) ∧
      (S.keys t'.inverse).length = min (S.keys t.inverse).length num := by
  obtain ⟨t', f', e, h', hsub, hlen⟩ := h.tracks.pruneLoop ((S.keys t.inverse).length - num) (Nat.sub_le _ _)
  have hb := h.bounded
  exact ⟨t', f', e, h'.represents (by omega), hsub, by omega⟩

/-! ## Updating -/

section Update

variable [One F] [Add F] [Sub F] [Mul F] [Div F] [NatCast F] [OfScientific F]

/-- What a tracked key is averaged with. -/
def target (median : F) (cands : Candidates F α) (k : α) : F :=
  ((cands[k]?.filter (fun sc => 5 ≤ sc.count)).map ScoreUpdateCandidate.finalize).getD median

/-- **The loop over the tracked keys**: each visited key takes its average, and its candidate is used up. -/
theorem Represents.updateTracked (median : F) : ∀ (l : List α) (cands : Candidates F α) {t : ScoreTable S F α m}
    {f : α → Option F}, Represents t f → l.Nodup → (∀ k ∈ l, (f k).isSome) →
    Represents (l.foldl (updateTracked median) (t, cands)).1
        (fun k => if k ∈ l then (f k).map (fun old => ema old (target median cands k)) else f k) ∧
      ∀ k, (l.foldl (ScoreTable.updateTracked median) (t, cands)).2[k]? = if k ∈ l then none else cands[k]?
  | [], cands, t, f, h, _, _ => ⟨by simpa using h, by simp⟩
  | k₀ :: l, cands, t, f, h, hnd, htracked => by
    obtain ⟨old, hk₀⟩ := Option.isSome_iff_exists.1 (htracked k₀ (by simp))
    have hnot : k₀ ∉ l := (List.nodup_cons.1 hnd).1
    have hstep : ScoreTable.updateTracked median (t, cands) k₀ =
        (t.rescore k₀ old (ema old (target median cands k₀)), cands.erase k₀) := by
      simp only [ScoreTable.updateTracked, h.score, hk₀, target]
    have hother : ∀ k ∈ l, update f k₀ (some (ema old (target median cands k₀))) k = f k ∧
        (cands.erase k₀)[k]? = cands[k]? := by
      intro k hk
      have hne : k ≠ k₀ := ne_of_mem_of_not_mem hk hnot
      exact ⟨update_of_ne hne _ _, by rw [treeMap_get_erase, if_neg hne]⟩
    obtain ⟨hrep, hrest⟩ := Represents.updateTracked median l (cands.erase k₀)
      (h.rescore (ema old (target median cands k₀)) hk₀) (List.nodup_cons.1 hnd).2
      (fun k hk => by rw [(hother k hk).1]; exact htracked k (by simp [hk]))
    rw [List.foldl_cons, hstep]
    refine ⟨?_, fun k => ?_⟩
    · convert hrep using 1
      funext k
      by_cases hk : k ∈ l
      · have htarget : target median (cands.erase k₀) k = target median cands k := by
          unfold target
          rw [(hother k hk).2]
        simp only [List.mem_cons, hk, or_true, if_true, (hother k hk).1, htarget]
      · by_cases hkk : k = k₀
        · simp only [hkk, List.mem_cons, true_or, if_true, hnot, if_false, update_self, hk₀, Option.map_some]
        · simp only [List.mem_cons, hkk, hk, or_self, if_false, update_of_ne hkk]
    · rw [hrest, treeMap_get_erase]
      by_cases hk : k ∈ l <;> by_cases hkk : k = k₀ <;> simp [hk, hkk]

omit [One F] [Add F] [Sub F] [Mul F] [OfScientific F] in
theorem Represents.insertCandidate {t : ScoreTable S F α m} {f : α → Option F} (h : Represents t f)
    {c : α × ScoreUpdateCandidate F} (hc : f c.1 = none) :
    ∃ f₁, Represents (t.insertCandidate c) f₁ ∧ (f₁ = f ∨ 5 ≤ c.2.count ∧ f₁ = update f c.1 (some c.2.finalize)) ∧
      (5 ≤ c.2.count → (S.keys t.inverse).length < S.capacity m → f₁ c.1 = some c.2.finalize) := by
  unfold ScoreTable.insertCandidate
  by_cases hcount : 5 ≤ c.2.count
  · rw [if_pos hcount]
    rcases h.insertBoth c.2.finalize hc with ⟨-, h'⟩ | ⟨hfull, he⟩
    · exact ⟨_, h', Or.inr ⟨hcount, rfl⟩, fun _ _ => update_self _ _ _⟩
    · exact ⟨f, by rw [he]; exact h, Or.inl rfl, fun _ hroom => absurd hfull (ne_of_lt hroom)⟩
  · rw [if_neg hcount]
    exact ⟨f, h, Or.inl rfl, fun hge => absurd hge hcount⟩

omit [One F] [Add F] [Sub F] [Mul F] [OfScientific F] in
theorem length_insertCandidate_le (t : ScoreTable S F α m) (c : α × ScoreUpdateCandidate F)
    (l : List (α × ScoreUpdateCandidate F)) :
    (S.keys (t.insertCandidate c).inverse).length + (l.filter fun c => 5 ≤ c.2.count).length ≤
      (S.keys t.inverse).length + ((c :: l).filter fun c => 5 ≤ c.2.count).length := by
  unfold ScoreTable.insertCandidate
  by_cases hcount : 5 ≤ c.2.count
  · rw [if_pos hcount, List.filter_cons_of_pos (by simpa using hcount), List.length_cons]
    have := Sokoban.length_insert_le t.inverse (entry c.2.finalize c.1) ()
    simp only [ScoreTable.insertBoth]
    omega
  · rw [if_neg hcount, List.filter_cons_of_neg (by simpa using hcount)]

omit [One F] [Add F] [Sub F] [Mul F] [OfScientific F] in
theorem Represents.insertCandidate_cons {t : ScoreTable S F α m} {f : α → Option F} (h : Represents t f)
    {c : α × ScoreUpdateCandidate F} {l : List (α × ScoreUpdateCandidate F)} (hnd : ((c :: l).map Prod.fst).Nodup)
    (hnone : ∀ c' ∈ c :: l, f c'.1 = none) :
    ∃ f₁, Represents (t.insertCandidate c) f₁ ∧ (f₁ = f ∨ 5 ≤ c.2.count ∧ f₁ = update f c.1 (some c.2.finalize)) ∧
      (5 ≤ c.2.count → (S.keys t.inverse).length < S.capacity m → f₁ c.1 = some c.2.finalize) ∧
      (∀ k, k ≠ c.1 → f₁ k = f k) ∧ ∀ c' ∈ l, c'.1 ≠ c.1 ∧ f₁ c'.1 = none := by
  rw [List.map_cons, List.nodup_cons] at hnd
  obtain ⟨f₁, h₁, hf₁, hroom₁⟩ := h.insertCandidate (hnone c (by simp))
  have hkeep : ∀ k, k ≠ c.1 → f₁ k = f k := by
    intro k hk
    rcases hf₁ with rfl | ⟨-, rfl⟩
    · rfl
    · exact update_of_ne hk _ _
  refine ⟨f₁, h₁, hf₁, hroom₁, hkeep, fun c' hc' => ?_⟩
  have hne : c'.1 ≠ c.1 := ne_of_mem_of_not_mem (List.mem_map_of_mem hc') hnd.1
  exact ⟨hne, by rw [hkeep _ hne]; exact hnone c' (by simp [hc'])⟩

omit [One F] [Add F] [Sub F] [Mul F] [OfScientific F] in
/-- **The loop over the candidates left**: each untracked key with enough transactions enters both trees or neither, and
where there is room for all of them, all enter. -/
theorem Represents.insertCandidates : ∀ (l : List (α × ScoreUpdateCandidate F)) {t : ScoreTable S F α m}
    {f : α → Option F}, Represents t f → (l.map Prod.fst).Nodup → (∀ c ∈ l, f c.1 = none) →
    ∃ f', Represents (l.foldl ScoreTable.insertCandidate t) f' ∧
      (∀ k, f' k = f k ∨ ∃ c ∈ l, c.1 = k ∧ 5 ≤ c.2.count ∧ f k = none ∧ f' k = some c.2.finalize) ∧
      ((S.keys t.inverse).length + (l.filter fun c => 5 ≤ c.2.count).length ≤ S.capacity m →
        ∀ c ∈ l, 5 ≤ c.2.count → f' c.1 = some c.2.finalize)
  | [], t, f, h, _, _ => ⟨f, h, fun k => Or.inl rfl, fun _ c hc => absurd hc (by simp)⟩
  | c :: l, t, f, h, hnd, hnone => by
    have hc : f c.1 = none := hnone c (by simp)
    obtain ⟨f₁, h₁, hf₁, hroom₁, hkeep, hrest⟩ := h.insertCandidate_cons hnd hnone
    obtain ⟨f', h', hf', hroom'⟩ := Represents.insertCandidates l h₁ (List.nodup_cons.1 hnd).2
      (fun c' hc' => (hrest c' hc').2)
    refine ⟨f', h', fun k => ?_, fun hroom c' hc' hcount => ?_⟩
    · rcases hf' k with hk | ⟨c', hc', rfl, hcount, -, hk⟩
      · by_cases hkc : k = c.1
        · subst hkc
          rcases hf₁ with rfl | ⟨hcount, rfl⟩
          · exact Or.inl hk
          · exact Or.inr ⟨c, by simp, rfl, hcount, hc, by rw [hk, update_self]⟩
        · exact Or.inl (by rw [hk, hkeep k hkc])
      · exact Or.inr ⟨c', by simp [hc'], rfl, hcount, hnone c' (by simp [hc']), hk⟩
    · rcases List.mem_cons.1 hc' with rfl | hc'
      · -- the entry of the first candidate stays: no later one has its key
        have hlt : (S.keys t.inverse).length < S.capacity m := by
          rw [List.filter_cons_of_pos (by simpa using hcount), List.length_cons] at hroom
          omega
        rcases hf' c'.1 with hk | ⟨c'', hc'', he, -⟩
        · rw [hk]
          exact hroom₁ hcount hlt
        · exact absurd he (hrest c'' hc'').1
      · exact hroom' (le_trans (length_insertCandidate_le t c l) hroom) c' hc' hcount

/-- **Between the two loops**: the tracked keys are averaged, and the candidates left are those of the untracked keys. -/
theorem Represents.averaged {t : ScoreTable S F α m} {f : α → Option F} (h : Represents t f) (cands : Candidates F α)
    {r : ScoreTable S F α m × Candidates F α}
    (hr : (S.keys t.score).foldl (ScoreTable.updateTracked t.approximateMedian) (t, cands) = r) :
    Represents r.1 (fun k => (f k).map fun old => ema old (target t.approximateMedian cands k)) ∧
      (S.keys r.1.inverse).length = (S.keys t.inverse).length ∧ (r.2.toList.map Prod.fst).Nodup ∧
      ∀ c, c ∈ r.2.toList ↔ f c.1 = none ∧ cands[c.1]? = some c.2 := by
  have hkeys : ∀ k, k ∈ S.keys t.score ↔ (f k).isSome := by
    intro k
    rw [S.mem_keys, h.score]
  obtain ⟨h₁, hrest⟩ := Represents.updateTracked t.approximateMedian (S.keys t.score) cands h
    ((S.keys_sorted t.score).imp ne_of_lt) (fun k hk => (hkeys k).1 hk)
  rw [hr] at h₁ hrest
  have hall : (fun k => if k ∈ S.keys t.score then (f k).map fun old => ema old (target t.approximateMedian cands k)
      else f k) = fun k => (f k).map fun old => ema old (target t.approximateMedian cands k) := by
    funext k
    by_cases hk : k ∈ S.keys t.score
    · rw [if_pos hk]
    · rw [if_neg hk]
      rw [hkeys, Option.not_isSome_iff_eq_none] at hk
      rw [hk, Option.map_none]
  rw [hall] at h₁
  refine ⟨h₁, h.tracks.length_congr h₁.tracks (fun k => by rw [Option.isSome_map]), ?_, fun c => ?_⟩
  · rw [List.Nodup, List.pairwise_map]
    exact Std.TreeMap.ordered_keys_toList.imp (fun hlt => ne_of_lt (compare_lt_iff_lt.1 hlt))
  · rw [Std.TreeMap.mem_toList_iff_getElem?_eq_some, hrest]
    by_cases hk : c.1 ∈ S.keys t.score
    · rw [if_pos hk]
      rw [hkeys] at hk
      constructor
      · intro hn
        cases hn
      · rintro ⟨hn, -⟩
        rw [hn] at hk
        cases hk
    · rw [if_neg hk]
      rw [hkeys, Option.not_isSome_iff_eq_none] at hk
      exact ⟨fun hget => ⟨hk, hget⟩, fun hget => hget.2⟩

omit [One F] [Add F] [Sub F] [Mul F] [Div F] [NatCast F] [OfScientific F] [LinearOrder F] in
theorem length_qualified_le {l : List (α × ScoreUpdateCandidate F)} (hnd : (l.map Prod.fst).Nodup) {fresh : Finset α}
    (hfresh : ∀ c ∈ l, 5 ≤ c.2.count → c.1 ∈ fresh) : (l.filter fun c => 5 ≤ c.2.count).length ≤ fresh.card := by
  rw [← List.length_map (f := Prod.fst), ← List.toFinset_card_of_nodup ((List.filter_sublist.map Prod.fst).nodup hnd)]
  refine Finset.card_le_card (fun k hk => ?_)
  obtain ⟨c, hc, rfl⟩ := List.mem_map.1 (List.mem_toFinset.1 hk)
  obtain ⟨hc, hcount⟩ := List.mem_filter.1 hc
  exact hfresh c hc (by simpa using hcount)

/-- **One batch**: tracked keys are averaged, the only new keys are candidates with enough transactions, and where there
is room for all of those, all are new keys. -/
theorem Represents.updateScores {t : ScoreTable S F α m} {f : α → Option F} (h : Represents t f)
    (cands : Candidates F α) :
    ∃ f', Represents (t.updateScores cands) f' ∧
      (∀ k, f' k = (f k).map (fun old => ema old (target t.approximateMedian cands k)) ∨
        ∃ c, cands[k]? = some c ∧ 5 ≤ c.count ∧ f k = none ∧ f' k = some c.finalize) ∧
      ∀ fresh : Finset α, (∀ k c, cands[k]? = some c → 5 ≤ c.count → f k = none → k ∈ fresh) →
        (S.keys t.inverse).length + fresh.card ≤ S.capacity m →
        ∀ k c, cands[k]? = some c → 5 ≤ c.count → f k = none → f' k = some c.finalize := by
  generalize hr : (S.keys t.score).foldl (ScoreTable.updateTracked t.approximateMedian) (t, cands) = r
  obtain ⟨h₁, hsize, hdistinct, hmem⟩ := h.averaged cands hr
  obtain ⟨f', h', hf', hroom'⟩ := Represents.insertCandidates r.2.toList h₁ hdistinct
    (fun c hc => by rw [((hmem c).1 hc).1, Option.map_none])
  refine ⟨f', ?_, fun k => ?_, fun fresh hfresh hroom k c hget hcount hk => ?_⟩
  · unfold ScoreTable.updateScores
    rw [hr]
    exact h'
  · rcases hf' k with hk | ⟨c, hc, rfl, hcount, -, hk⟩
    · exact Or.inl hk
    · exact Or.inr ⟨c.2, ((hmem c).1 hc).2, hcount, ((hmem c).1 hc).1, hk⟩
  · refine hroom' ?_ (k, c) ((hmem (k, c)).2 ⟨hk, hget⟩) hcount
    have hle := length_qualified_le hdistinct
      (fun c' hc' hcount' => hfresh c'.1 c'.2 ((hmem c').1 hc').2 hcount' ((hmem c').1 hc').1)
    omega

end Update

/-- **Exact mirrors**: the same entries, one inverse entry for each tracked key, the same size. -/
structure Mirrors (t : ScoreTable S F α m) : Prop where
  entries : ∀ k s, S.get t.score k = some s ↔ (S.get t.inverse (entry s k)).isSome
  unique : ∀ k, (S.get t.score k).isSome → ∃! s, (S.get t.inverse (entry s k)).isSome
  sizes : (S.keys t.score).length = (S.keys t.inverse).length

theorem Tracks.mirrors {t : ScoreTable S F α m} {f : α → Option F} (h : Tracks t f) : Mirrors t where
  entries := fun k s => by rw [h.score, h.inverse]
  unique := fun k hk => by
    rw [h.score] at hk
    obtain ⟨s, hs⟩ := Option.isSome_iff_exists.1 hk
    refine ⟨s, (h.inverse s k).2 hs, fun s' hs' => ?_⟩
    have := (h.inverse s' k).1 hs'
    rw [hs] at this
    exact (Option.some.inj this).symm
  sizes := h.length_eq.symm

theorem Represents.mirrors {t : ScoreTable S F α m} {f : α → Option F} (h : Represents t f) : Mirrors t :=
  h.tracks.mirrors

theorem Mirrors.tracks {t : ScoreTable S F α m} (h : Mirrors t) : Tracks t (S.get t.score) :=
  ⟨fun _ => rfl, fun s k => (h.entries k s).symm⟩

end ScoreTable

/-! ## Runs of the model -/

open ScoreTable

variable {maxSigners maxIps : Nat}

inductive ModelOp (F : Type)
  | updateModel (transactions : List (QoSTransactionMeta F)) (pruneSigners pruneIps : Nat)
  | prune (numIps numSigners : Nat)
  | ipFeedback (ip : UInt32)
  | addIpScore (ip : UInt32) (score : F)
  | addSignerScore (signer : Pubkey) (score : F)

def IpSignerModel.Consistent (model : IpSignerModel S F maxSigners maxIps) : Prop :=
  (∃ f, Represents model.ip f) ∧ ∃ g, Represents model.signer g

theorem IpSignerModel.consistent_new : (new [] [] : IpSignerModel S F maxSigners maxIps).Consistent :=
  ⟨⟨_, Represents.empty⟩, ⟨_, Represents.empty⟩⟩

theorem IpSignerModel.prune_ok {model : IpSignerModel S F maxSigners maxIps} {numIps numSigners : Nat}
    {ip : ScoreTable S F UInt32 maxIps} {signer : ScoreTable S F Pubkey maxSigners}
    (hip : model.ip.prune numIps = .ok ip) (hsigner : model.signer.prune numSigners = .ok signer) :
    model.prune numIps numSigners = .ok ⟨signer, ip⟩ := by
  unfold IpSignerModel.prune
  rw [hip, ok_bind, hsigner, ok_bind]
  rfl

theorem IpSignerModel.Consistent.prune {model : IpSignerModel S F maxSigners maxIps} (h : model.Consistent)
    (numIps numSigners : Nat) : ∃ model', model.prune numIps numSigners = .ok model' ∧ model'.Consistent := by
  obtain ⟨⟨f, hf⟩, ⟨g, hg⟩⟩ := h
  obtain ⟨ip, f', eip, hf', -⟩ := hf.prune numIps
  obtain ⟨signer, g', esigner, hg', -⟩ := hg.prune numSigners
  exact ⟨⟨signer, ip⟩, IpSignerModel.prune_ok eip esigner, ⟨f', hf'⟩, ⟨g', hg'⟩⟩

theorem IpSignerModel.Consistent.ipFeedback [Mul F] [OfScientific F] {model : IpSignerModel S F maxSigners maxIps}
    (h : model.Consistent) (ip : UInt32) : (model.ipFeedback ip).Consistent := by
  obtain ⟨⟨f, hf⟩, hg⟩ := h
  exact ⟨⟨_, hf.feedback ip⟩, hg⟩

section Runs

variable [One F] [Add F] [Sub F] [Mul F] [Div F] [NatCast F] [OfScientific F]

theorem IpSignerModel.Consistent.updateModel {model : IpSignerModel S F maxSigners maxIps} (h : model.Consistent)
    (txs : List (QoSTransactionMeta F)) (pruneSigners pruneIps : Nat) :
    ∃ model', model.updateModel txs pruneSigners pruneIps = .ok model' ∧ model'.Consistent := by
  obtain ⟨⟨f, hf⟩, ⟨g, hg⟩⟩ := h
  obtain ⟨f', hf', -⟩ := hf.updateScores (Candidates.collect QoSTransactionMeta.ip txs)
  obtain ⟨g', hg', -⟩ := hg.updateScores (Candidates.collect QoSTransactionMeta.signer txs)
  exact IpSignerModel.Consistent.prune ⟨⟨f', hf'⟩, ⟨g', hg'⟩⟩ pruneIps pruneSigners

def IpSignerModel.step (model : IpSignerModel S F maxSigners maxIps) :
    ModelOp F → Except Panic (Unit × IpSignerModel S F maxSigners maxIps)
  | .updateModel txs pruneSigners pruneIps => do return ((), ← model.updateModel txs pruneSigners pruneIps)
  | .prune numIps numSigners => do return ((), ← model.prune numIps numSigners)
  | .ipFeedback ip => return ((), model.ipFeedback ip)
  | .addIpScore ip score => return ((), model.addIpScore ip score)
  | .addSignerScore signer score => return ((), model.addSignerScore signer score)

theorem IpSignerModel.Consistent.step {model : IpSignerModel S F maxSigners maxIps} (h : model.Consistent)
    (op : ModelOp F) : ∃ o model', model.step op = .ok (o, model') ∧ model'.Consistent := by
  cases op with
  | updateModel txs pruneSigners pruneIps =>
    obtain ⟨model', e, h'⟩ := h.updateModel txs pruneSigners pruneIps
    exact ⟨(), model', by simp only [IpSignerModel.step, e, ok_bind]; rfl, h'⟩
  | prune numIps numSigners =>
    obtain ⟨model', e, h'⟩ := h.prune numIps numSigners
    exact ⟨(), model', by simp only [IpSignerModel.step, e, ok_bind]; rfl, h'⟩
  | ipFeedback ip => exact ⟨(), _, rfl, h.ipFeedback ip⟩
  | addIpScore ip score =>
    obtain ⟨⟨f, hf⟩, hg⟩ := h
    exact ⟨(), _, rfl, hf.addScore ip score, hg⟩
  | addSignerScore signer score =>
    obtain ⟨hf, ⟨g, hg⟩⟩ := h
    exact ⟨(), _, rfl, hf, hg.addScore signer score⟩

/-- **The forward and inverse tables are exact mirrors in every reachable model**, trees at capacity included, and no
call of the run panics. -/
theorem ipSignerModel_mirrors (ops : List (ModelOp F)) :
    ∃ os model, run IpSignerModel.step (IpSignerModel.new [] [] : IpSignerModel S F maxSigners maxIps) ops =
      .ok (os, model) ∧ Mirrors model.ip ∧ Mirrors model.signer := by
  obtain ⟨os, model, e, ⟨f, hf⟩, ⟨g, hg⟩⟩ := run_total (fun _ => True) IpSignerModel.Consistent
    (fun model op _ h => h.step op) ops _ (fun _ _ => trivial) (IpSignerModel.consistent_new (S := S) (F := F))
  exact ⟨os, model, e, hf.mirrors, hg.mirrors⟩

end Runs

end Qos
