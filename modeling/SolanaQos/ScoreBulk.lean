import SolanaQos.ScoreMirror
/-!
# Building a model from lists of scores (`new` in `model/src/models/ip_signer.rs`)

`new` writes each pair of a list into both trees and never removes what a key had before; `add_ip_score` and
`add_signer_score` do.  The forward trees agree on every list: both have the last score of each key (`bulk_score`,
`addAll_represents`).  The inverse tree of `new` keeps the first pairs that fit, so it can hold several scores of one
key.

When do the two agree? A second score of a key does no harm if it is the score the key had, or if it comes when the
inverse tree is full already and so is refused (`Late`); and the key must end with the score it began with, or the
inverse tree has an outdated one.  `Settled` is this condition, on the list and the capacity.  Under it the inverse
tree is the graph of the first scores (`bulk_keepsFirst`), which are the last ones; and conversely, an inverse tree
with one entry a key kept no second score (`late_of_functional`).

`new_sameEntries_iff` is the equivalence for the model, and `new_keeps_stale_score` a list of two pairs on which the
constructions differ.
-/
namespace Qos

open Runs Function

variable {S : Sokoban} {F α : Type} {m : Nat} [LinearOrder F] [LinearOrder α]

/-! ## Lists of scores -/

def keysOf (l : List (α × F)) : Finset α := (l.map Prod.fst).toFinset

def firstScore (l : List (α × F)) (k : α) : Option F := l.lookup k

def lastScore (l : List (α × F)) (k : α) : Option F := l.reverse.lookup k

section Lists

omit [LinearOrder F]

theorem keysOf_snoc (l : List (α × F)) (k : α) (s : F) : keysOf (l ++ [(k, s)]) = insert k (keysOf l) := by
  ext k'
  simp [keysOf]

theorem mem_keysOf {l : List (α × F)} {k : α} : k ∈ keysOf l ↔ (firstScore l k).isSome := by
  rw [keysOf, List.mem_toFinset, List.mem_map, firstScore, List.lookup_isSome_iff]
  apply exists_congr
  intro p
  rw [beq_iff_eq, eq_comm (a := k)]

theorem mem_keysOf_last {l : List (α × F)} {k : α} : k ∈ keysOf l ↔ (lastScore l k).isSome := by
  have hrev : keysOf l = keysOf l.reverse := by rw [keysOf, keysOf, List.map_reverse, List.toFinset_reverse]
  rw [hrev]
  exact mem_keysOf

theorem lookup_cons_eq (l : List (α × F)) (k : α) (s : F) (k' : α) :
    ((k, s) :: l).lookup k' = if k' = k then some s else l.lookup k' := by
  rw [List.lookup_cons]
  by_cases hk : k' = k
  · rw [if_pos hk, beq_iff_eq.2 hk]
  · rw [if_neg hk, beq_eq_false_iff_ne.2 hk]

theorem fits_of_snoc {cap : Nat} {l : List (α × F)} {e : α × F} (hfit : (keysOf (l ++ [e])).card ≤ cap) :
    (keysOf l).card ≤ cap := by
  rw [keysOf_snoc l e.1 e.2] at hfit
  exact le_trans (Finset.card_le_card (Finset.subset_insert _ _)) hfit

theorem card_lt_of_fits {cap : Nat} {l : List (α × F)} {k : α} {s : F} (hfit : (keysOf (l ++ [(k, s)])).card ≤ cap)
    (hk : k ∉ keysOf l) : (keysOf l).card < cap := by
  rw [keysOf_snoc, Finset.card_insert_of_notMem hk] at hfit
  omega

theorem firstScore_append {l l' : List (α × F)} {k : α} {s : F} (h : firstScore l k = some s) :
    firstScore (l ++ l') k = some s := by
  unfold firstScore at *
  rw [List.lookup_append, h, Option.some_or]

theorem firstScore_snoc_of_mem {l : List (α × F)} {k : α} (s : F) (hk : k ∈ keysOf l) :
    firstScore (l ++ [(k, s)]) = firstScore l := by
  funext k'
  cases hl : firstScore l k' with
  | some s' => exact firstScore_append hl
  | none =>
    have hne : k' ≠ k := by
      rintro rfl
      rw [mem_keysOf, hl] at hk
      cases hk
    unfold firstScore at *
    rw [List.lookup_append, hl, Option.none_or, lookup_cons_eq, if_neg hne, List.lookup_nil]

theorem firstScore_snoc_of_notMem {l : List (α × F)} {k : α} (s : F) (hk : k ∉ keysOf l) :
    firstScore (l ++ [(k, s)]) = update (firstScore l) k (some s) := by
  funext k'
  rw [mem_keysOf, Option.not_isSome_iff_eq_none] at hk
  unfold firstScore at *
  rw [List.lookup_append, lookup_cons_eq, update_apply]
  by_cases hkk : k' = k
  · rw [if_pos hkk, if_pos hkk, hkk, hk, Option.none_or]
  · rw [if_neg hkk, if_neg hkk, List.lookup_nil, Option.or_none]

theorem lastScore_snoc (l : List (α × F)) (k : α) (s : F) :
    lastScore (l ++ [(k, s)]) = update (lastScore l) k (some s) := by
  funext k'
  unfold lastScore
  rw [List.reverse_append, List.reverse_singleton, List.singleton_append, lookup_cons_eq, update_apply]

end Lists

/-- **A second score comes too late to be kept**: `cap` keys stand before it. -/
def Late (cap : Nat) (l : List (α × F)) : Prop :=
  ∀ pre k s post, l = pre ++ (k, s) :: post → firstScore l k = some s ∨ cap ≤ (keysOf pre).card

/-- **The lists both constructions agree on**: every key ends with the score it began with, and a score in between comes
after `cap` keys. -/
structure Settled (cap : Nat) (l : List (α × F)) : Prop where
  late : Late cap l
  returns : ∀ k, lastScore l k = firstScore l k

omit [LinearOrder F] in
theorem Late.of_snoc {cap : Nat} {l : List (α × F)} {e : α × F} (h : Late cap (l ++ [e])) : Late cap l := by
  rintro pre k s post rfl
  rcases h pre k s (post ++ [e]) (by simp) with hk | hcap
  · left
    have hmem : k ∈ keysOf (pre ++ (k, s) :: post) := by simp [keysOf]
    obtain ⟨s', hs'⟩ := Option.isSome_iff_exists.1 (mem_keysOf.1 hmem)
    rw [firstScore_append hs'] at hk
    rw [hs', hk]
  · exact .inr hcap

omit [LinearOrder F] in
theorem lookup_of_nodup {l : List (α × F)} (hnd : (l.map Prod.fst).Nodup) {k : α} {s : F} (h : (k, s) ∈ l) :
    l.lookup k = some s := by
  obtain ⟨pre, post, rfl⟩ := List.append_of_mem h
  refine List.lookup_eq_some_iff.2 ⟨pre, post, rfl, fun p hp => bne_iff_ne.2 fun hk => ?_⟩
  rw [List.map_append, List.nodup_append] at hnd
  exact hnd.2.2 p.1 (List.mem_map_of_mem hp) k (by simp) hk.symm

omit [LinearOrder F] in
theorem Settled.of_nodup {cap : Nat} {l : List (α × F)} (hnd : (l.map Prod.fst).Nodup) : Settled cap l where
  late := by
    rintro pre k s post rfl
    exact .inl (lookup_of_nodup hnd (by simp))
  returns := by
    intro k
    cases hk : firstScore l k with
    | none =>
      rw [← Option.not_isSome_iff_eq_none, ← mem_keysOf] at hk
      rwa [← Option.not_isSome_iff_eq_none, ← mem_keysOf_last]
    | some s =>
      obtain ⟨pre, post, hl, -⟩ := List.lookup_eq_some_iff.1 hk
      have hnd' : (l.reverse.map Prod.fst).Nodup := by rwa [List.map_reverse, List.nodup_reverse]
      exact lookup_of_nodup hnd' (List.mem_reverse.2 (by rw [hl]; simp))

namespace ScoreTable

/-! ## One pair of trees -/

def bulk (l : List (α × F)) : ScoreTable S F α m := l.foldl (fun t e => t.insertBoth e.1 e.2) empty

def addAll (l : List (α × F)) : ScoreTable S F α m := l.foldl (fun t e => t.addScore e.1 e.2) empty

theorem bulk_snoc (l : List (α × F)) (k : α) (s : F) :
    (bulk (l ++ [(k, s)]) : ScoreTable S F α m) = (bulk l).insertBoth k s := by
  unfold bulk
  rw [List.foldl_append]
  rfl

theorem addAll_snoc (l : List (α × F)) (k : α) (s : F) :
    (addAll (l ++ [(k, s)]) : ScoreTable S F α m) = (addAll l).addScore k s := by
  unfold addAll
  rw [List.foldl_append]
  rfl

theorem Represents.addScore_room {t : ScoreTable S F α m} {f : α → Option F} (h : Represents t f) (k : α) (s : F)
    (hroom : (f k).isSome ∨ (S.keys t.inverse).length < S.capacity m) :
    Represents (t.addScore k s) (update f k (some s)) := by
  unfold ScoreTable.addScore
  cases hk : S.get t.score k with
  | none =>
    rw [h.score] at hk
    rw [hk, Option.isSome_none] at hroom
    rcases h.insertBoth s hk with ⟨-, h'⟩ | ⟨hfull, -⟩
    · exact h'
    · have hlt := hroom.resolve_left Bool.false_ne_true
      omega
  | some old =>
    rw [h.score] at hk
    rcases (h.forget hk).insertBoth s (update_self k none f) with ⟨-, h'⟩ | ⟨hfull, -⟩
    · rwa [update_idem] at h'
    · have hlt := h.room hk
      simp only at hfull
      omega

theorem addAll_represents (l : List (α × F)) (hfit : (keysOf l).card ≤ S.capacity m) :
    Represents (addAll l : ScoreTable S F α m) (lastScore l) := by
  induction l using List.reverseRecOn with
  | nil => exact Represents.empty
  | append_singleton l e ih =>
    have h := ih (fits_of_snoc hfit)
    rw [addAll_snoc, lastScore_snoc]
    apply h.addScore_room
    by_cases hk : e.1 ∈ keysOf l
    · exact .inl (mem_keysOf_last.1 hk)
    · right
      rw [← Sokoban.card_support, card_graph h.tracks.mem_support fun k => mem_keysOf_last]
      exact card_lt_of_fits hfit hk

theorem bulk_score (l : List (α × F)) (hfit : (keysOf l).card ≤ S.capacity m) (k : α) :
    S.get (bulk l : ScoreTable S F α m).score k = lastScore l k := by
  induction l using List.reverseRecOn generalizing k with
  | nil => exact S.get_new k
  | append_singleton l e ih =>
    have h := ih (fits_of_snoc hfit)
    have hkeys : Sokoban.support (bulk l : ScoreTable S F α m).score = keysOf l := by
      ext k'
      rw [Sokoban.mem_support, h, mem_keysOf_last]
    rw [bulk_snoc, lastScore_snoc, update_apply, ← h]
    apply S.get_insert
    by_cases hk : e.1 ∈ keysOf l
    · rw [← hkeys, Sokoban.mem_support] at hk
      exact .inl hk
    · right
      rw [← Sokoban.card_support, hkeys]
      exact card_lt_of_fits hfit hk

def KeepsFirst (l : List (α × F)) (t : ScoreTable S F α m) : Prop :=
  ∀ s k, (S.get t.inverse (entry s k)).isSome ↔ firstScore l k = some s

theorem KeepsFirst.length {l : List (α × F)} {t : ScoreTable S F α m} (h : KeepsFirst l t) :
    (S.keys t.inverse).length = (keysOf l).card := by
  rw [← Sokoban.card_support]
  refine card_graph (fun e => ?_) fun k => mem_keysOf
  rw [Sokoban.mem_support, ← h, entry_eta]

theorem KeepsFirst.insert_new {l : List (α × F)} {t : ScoreTable S F α m} (h : KeepsFirst l t) {k : α} (s : F)
    (hk : k ∉ keysOf l) (hroom : (keysOf l).card < S.capacity m) : KeepsFirst (l ++ [(k, s)]) (t.insertBoth k s) := by
  intro s' k'
  unfold ScoreTable.insertBoth
  rw [firstScore_snoc_of_notMem s hk, update_apply, S.get_insert _ _ _ _ (.inr (by rw [h.length]; exact hroom))]
  by_cases hkk : k' = k
  · subst hkk
    have hnone : firstScore l k' = none := by rwa [mem_keysOf, Option.not_isSome_iff_eq_none] at hk
    by_cases hs : s' = s
    · simp [hs]
    · rw [if_neg (by simp [entry_inj, hs]), if_pos rfl, h, hnone]
      simp [Ne.symm hs]
  · rw [if_neg (by simp [entry_inj, hkk]), if_neg hkk, h]

theorem KeepsFirst.insert_old {l : List (α × F)} {t : ScoreTable S F α m} (h : KeepsFirst l t) {k : α} {s : F}
    (hk : k ∈ keysOf l) (hlate : firstScore l k = some s ∨ S.capacity m ≤ (keysOf l).card) :
    KeepsFirst (l ++ [(k, s)]) (t.insertBoth k s) := by
  intro s' k'
  unfold ScoreTable.insertBoth
  rw [firstScore_snoc_of_mem s hk, ← h]
  by_cases hs : firstScore l k = some s
  · have hin := (h s k).2 hs
    rw [S.get_insert _ _ _ _ (.inl hin)]
    by_cases he : entry s' k' = entry s k
    · rw [if_pos he, he]
      exact iff_of_true rfl hin
    · rw [if_neg he]
  · have hout : S.get t.inverse (entry s k) = none := by
      rwa [← h, Option.not_isSome_iff_eq_none] at hs
    have hfull : ¬ (S.keys t.inverse).length < S.capacity m := by
      rw [h.length]
      exact not_lt.2 (hlate.resolve_left hs)
    rw [S.insert_full _ _ _ hout hfull]

/-- **Where no second score is kept**, the inverse tree of a bulk construction is the graph of the first scores. -/
theorem bulk_keepsFirst (l : List (α × F)) (hfit : (keysOf l).card ≤ S.capacity m) (hlate : Late (S.capacity m) l) :
    KeepsFirst l (bulk l : ScoreTable S F α m) := by
  induction l using List.reverseRecOn with
  | nil =>
    intro s k
    simp [bulk, ScoreTable.empty, S.get_new, firstScore]
  | append_singleton l e ih =>
    have h := ih (fits_of_snoc hfit) hlate.of_snoc
    rw [bulk_snoc l e.1 e.2]
    by_cases hk : e.1 ∈ keysOf l
    · refine h.insert_old hk ?_
      have := hlate l e.1 e.2 [] rfl
      rwa [firstScore_snoc_of_mem e.2 hk] at this
    · exact h.insert_new e.2 hk (card_lt_of_fits hfit hk)

theorem bulk_mono (l : List (α × F)) (k : α) (s : F) {e : F ×ₗ α}
    (h : (S.get (bulk l : ScoreTable S F α m).inverse e).isSome) :
    (S.get (bulk (l ++ [(k, s)]) : ScoreTable S F α m).inverse e).isSome := by
  rw [bulk_snoc]
  unfold ScoreTable.insertBoth
  by_cases hroom : (S.get (bulk l : ScoreTable S F α m).inverse (entry s k)).isSome ∨
      (S.keys (bulk l : ScoreTable S F α m).inverse).length < S.capacity m
  · rw [S.get_insert _ _ _ _ hroom]
    by_cases he : e = entry s k
    · rw [if_pos he]
      rfl
    · rwa [if_neg he]
  · rw [not_or, Option.not_isSome_iff_eq_none] at hroom
    rw [S.insert_full _ _ _ hroom.1 hroom.2]
    exact h

theorem late_of_functional (l : List (α × F)) (hfit : (keysOf l).card ≤ S.capacity m)
    (hone : ∀ k s s', (S.get (bulk l : ScoreTable S F α m).inverse (entry s k)).isSome →
      (S.get (bulk l : ScoreTable S F α m).inverse (entry s' k)).isSome → s = s') : Late (S.capacity m) l := by
  induction l using List.reverseRecOn with
  | nil =>
    intro pre k s post h
    cases pre <;> cases h
  | append_singleton l e ih =>
    have hlate := ih (fits_of_snoc hfit) fun k s s' h h' => hone k s s' (bulk_mono l e.1 e.2 h) (bulk_mono l e.1 e.2 h')
    have hfirst := bulk_keepsFirst l (fits_of_snoc hfit) hlate
    intro pre k s post hsplit
    rcases List.eq_nil_or_concat post with rfl | ⟨post', e', rfl⟩
    · -- the pair is the new one
      obtain ⟨rfl, he⟩ := List.append_inj' hsplit rfl
      cases he
      by_cases hk : k ∈ keysOf l
      · rw [firstScore_snoc_of_mem s hk]
        by_contra hno
        rw [not_or, not_le] at hno
        obtain ⟨s₀, hs₀⟩ := Option.isSome_iff_exists.1 (mem_keysOf.1 hk)
        have hin : (S.get (bulk (l ++ [(k, s)]) : ScoreTable S F α m).inverse (entry s k)).isSome := by
          rw [bulk_snoc]
          unfold ScoreTable.insertBoth
          rw [S.get_insert _ _ _ _ (.inr (by rw [hfirst.length]; exact hno.2)), if_pos rfl]
          rfl
        have hsame := hone k s₀ s (bulk_mono l k s ((hfirst s₀ k).2 hs₀)) hin
        exact hno.1 (by rw [hs₀, hsame])
      · left
        rw [firstScore_snoc_of_notMem s hk, update_self]
    · -- the pair stands in the list before
      rw [List.concat_eq_append, ← List.cons_append, ← List.append_assoc] at hsplit
      obtain ⟨hl, -⟩ := List.append_inj' hsplit rfl
      rcases hlate pre k s post' hl with hk | hcap
      · exact .inl (firstScore_append hk)
      · exact .inr hcap

def SameEntries (t t' : ScoreTable S F α m) : Prop :=
  (∀ k, S.get t.score k = S.get t'.score k) ∧ ∀ e, (S.get t.inverse e).isSome = (S.get t'.inverse e).isSome

theorem Tracks.congr {t t' : ScoreTable S F α m} {f : α → Option F} (h : Tracks t' f) (hsame : SameEntries t t') :
    Tracks t f where
  score := fun k => by rw [hsame.1, h.score]
  inverse := fun s k => by rw [hsame.2, h.inverse]

theorem Mirrors.functional {t : ScoreTable S F α m} (h : Mirrors t) {k : α} {s s' : F}
    (hs : (S.get t.inverse (entry s k)).isSome) (hs' : (S.get t.inverse (entry s' k)).isSome) : s = s' := by
  rw [← h.entries] at hs hs'
  rw [hs] at hs'
  exact Option.some.inj hs'

/-- **When the two constructions of one dimension agree.** -/
theorem bulk_sameEntries_iff (l : List (α × F)) (hfit : (keysOf l).card ≤ S.capacity m) :
    SameEntries (bulk l : ScoreTable S F α m) (addAll l) ∧ Mirrors (bulk l : ScoreTable S F α m) ↔
      Settled (S.capacity m) l := by
  have hadd : Represents (addAll l : ScoreTable S F α m) (lastScore l) := addAll_represents l hfit
  constructor
  · rintro ⟨hsame, hmirror⟩
    have hlate := late_of_functional l hfit fun k s s' h h' => hmirror.functional h h'
    have hfirst := bulk_keepsFirst l hfit hlate
    have hlast := hadd.tracks.congr hsame
    refine ⟨hlate, fun k => Option.ext fun s => ?_⟩
    rw [← hlast.inverse, hfirst]
  · rintro ⟨hlate, hreturns⟩
    have hfirst := bulk_keepsFirst l hfit hlate
    have hbulk : Tracks (bulk l : ScoreTable S F α m) (lastScore l) :=
      ⟨bulk_score l hfit, fun s k => by rw [hfirst, hreturns]⟩
    refine ⟨⟨fun k => ?_, fun e => ?_⟩, hbulk.mirrors⟩
    · rw [hbulk.score, hadd.score]
    · rw [Bool.eq_iff_iff, ← entry_eta e, hbulk.inverse, hadd.inverse]

end ScoreTable

/-! ## The model -/

open ScoreTable

variable {maxSigners maxIps : Nat}

def IpSignerModel.addScores (ipScores : List (UInt32 × F)) (signerScores : List (Pubkey × F)) :
    IpSignerModel S F maxSigners maxIps :=
  signerScores.foldl (fun model e => model.addSignerScore e.1 e.2)
    (ipScores.foldl (fun model e => model.addIpScore e.1 e.2) (.new [] []))

theorem foldl_addIpScore : ∀ (l : List (UInt32 × F)) (model : IpSignerModel S F maxSigners maxIps),
    l.foldl (fun model e => model.addIpScore e.1 e.2) model =
      { model with ip := l.foldl (fun t e => t.addScore e.1 e.2) model.ip }
  | [], model => rfl
  | e :: l, model => by
    rw [List.foldl_cons, foldl_addIpScore l]
    rfl

theorem foldl_addSignerScore : ∀ (l : List (Pubkey × F)) (model : IpSignerModel S F maxSigners maxIps),
    l.foldl (fun model e => model.addSignerScore e.1 e.2) model =
      { model with signer := l.foldl (fun t e => t.addScore e.1 e.2) model.signer }
  | [], model => rfl
  | e :: l, model => by
    rw [List.foldl_cons, foldl_addSignerScore l]
    rfl

theorem IpSignerModel.addScores_eq (ipScores : List (UInt32 × F)) (signerScores : List (Pubkey × F)) :
    (addScores ipScores signerScores : IpSignerModel S F maxSigners maxIps) =
      ⟨ScoreTable.addAll signerScores, ScoreTable.addAll ipScores⟩ := by
  unfold addScores
  rw [foldl_addIpScore, foldl_addSignerScore]
  rfl

/-- **When bulk construction agrees with incremental insertion**: exactly when no key of either list is given a second
score, unless it comes after as many keys as fit and is taken back in the end. -/
theorem new_sameEntries_iff (ipScores : List (UInt32 × F)) (signerScores : List (Pubkey × F))
    (hips : (keysOf ipScores).card ≤ S.capacity maxIps) (hsigners : (keysOf signerScores).card ≤ S.capacity maxSigners) :
    let bulk : IpSignerModel S F maxSigners maxIps := .new ipScores signerScores
    let added : IpSignerModel S F maxSigners maxIps := .addScores ipScores signerScores
    (SameEntries bulk.ip added.ip ∧ SameEntries bulk.signer added.signer ∧ Mirrors bulk.ip ∧ Mirrors bulk.signer) ↔
      Settled (S.capacity maxIps) ipScores ∧ Settled (S.capacity maxSigners) signerScores := by
  intro bulk added
  have hadded : added = ⟨ScoreTable.addAll signerScores, ScoreTable.addAll ipScores⟩ :=
    IpSignerModel.addScores_eq ipScores signerScores
  rw [← bulk_sameEntries_iff ipScores hips, ← bulk_sameEntries_iff signerScores hsigners, hadded]
  exact ⟨fun ⟨h₁, h₂, h₃, h₄⟩ => ⟨⟨h₁, h₃⟩, h₂, h₄⟩, fun ⟨⟨h₁, h₃⟩, h₂, h₄⟩ => ⟨h₁, h₂, h₃, h₄⟩⟩

/-- Two ips and a signer, none repeated. -/
theorem new_sameEntries_iff_three :
    let bulk : IpSignerModel sortedTree ℚ 16 16 := .new [(1, 2), (2, 5)] [(⟨Vector.replicate 32 1⟩, 3)]
    let added : IpSignerModel sortedTree ℚ 16 16 := .addScores [(1, 2), (2, 5)] [(⟨Vector.replicate 32 1⟩, 3)]
    SameEntries bulk.ip added.ip ∧ SameEntries bulk.signer added.signer ∧ Mirrors bulk.ip ∧ Mirrors bulk.signer :=
  (new_sameEntries_iff [(1, 2), (2, 5)] [(⟨Vector.replicate 32 1⟩, 3)] (by decide) (by decide)).2
    ⟨.of_nodup (by decide), .of_nodup (by decide)⟩

/-- **A repeated ip leaves its old score behind**: the ip has score 3, the inverse tree still lists it under 2. -/
theorem new_keeps_stale_score :
    let bulk : IpSignerModel sortedTree ℚ 16 16 := .new [(1, 2), (1, 3)] []
    let added : IpSignerModel sortedTree ℚ 16 16 := .addScores [(1, 2), (1, 3)] []
    ¬ SameEntries bulk.ip added.ip ∧ ¬ Mirrors bulk.ip := by
  have hstale : ¬ Mirrors (ScoreTable.bulk [(1, 2), (1, 3)] : ScoreTable sortedTree ℚ UInt32 16) := by
    intro hmirror
    have hlate := late_of_functional _ (by decide) fun k s s' h h' => hmirror.functional h h'
    rcases hlate [(1, 2)] 1 3 [] rfl with h | h
    · cases h
    · exact absurd h (by decide)
  refine ⟨fun hsame => hstale ?_, hstale⟩
  exact ((addAll_represents [(1, 2), (1, 3)] (by decide)).tracks.congr hsame).mirrors

end Qos
