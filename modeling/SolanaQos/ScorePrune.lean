import SolanaQos.RedBlack
import SolanaQos.ScoreBatch
/-!
# What pruning keeps (`prune` in `model/src/models/ip_signer.rs`)

The victims are the roots of the inverse tree, and the tree is a red-black tree: while at least three entries are left,
the root is neither the first nor the last of them.  The lowest and the highest score therefore outlive every prune
that leaves two entries, whatever roots the rebalancing brings up (`pruneLoop_extreme`, by induction on the number of
victims).

`RedBlackSokoban` is a crate whose trees are valid red-black trees at all times; which one, after a removal, is not
said.  `sortedRedBlack` is such a crate, with the tree that halves the list of its entries.

`prune_keepsExtremes` speaks of the sources: on mirrored tables, the ones with the least and with the greatest entry
are still tracked on both sides behind a prune.
-/
namespace Qos

open Runs

/-- **The tree as the crate builds it**: a valid red-black search tree at all times, whose root is the entry that
`remove_root` removes and returns. -/
structure RedBlackSokoban extends Sokoban where
  shape : ∀ {K V : Type} [LinearOrder K] {m : Nat}, Tree K V m → RedBlack.Tree K
  shape_valid : ∀ {K V : Type} [LinearOrder K] {m : Nat} (t : Tree K V m), (shape t).Valid
  keys_shape : ∀ {K V : Type} [LinearOrder K] {m : Nat} (t : Tree K V m), (shape t).keys = keys t
  root_shape : ∀ {K V : Type} [LinearOrder K] {m : Nat} (t : Tree K V m), (shape t).root = root t
  removeRoot_root : ∀ {K V : Type} [LinearOrder K] {m : Nat} (t t' : Tree K V m) (k : K),
    removeRoot t = some (k, t') → root t = some k

/-- The sorted map with the tree of its halves. -/
def sortedRedBlack : RedBlackSokoban where
  toSokoban := sortedTree
  shape := fun t => .ofList (sortedTree.keys t)
  shape_valid := fun t => by
    obtain ⟨hkeys, hbal⟩ := RedBlack.Tree.ofList_spec (sortedTree.keys t)
    exact ⟨by rw [hkeys]; exact sortedTree.keys_sorted t, hbal⟩
  keys_shape := fun t => (RedBlack.Tree.ofList_spec (sortedTree.keys t)).1
  root_shape := fun t => RedBlack.Tree.root_halve _ _
  removeRoot_root := fun t t' k h => by
    obtain ⟨k', hk', he⟩ := Option.map_eq_some_iff.1 h
    cases he
    exact hk'

variable {R : RedBlackSokoban} {F α : Type} {m maxSigners maxIps : Nat} [LinearOrder F] [LinearOrder α]

theorem RedBlackSokoban.removeRoot_interior {K V : Type} [LinearOrder K] {t t' : R.Tree K V m} {k : K}
    (h : R.removeRoot t = some (k, t')) (hsize : 3 ≤ (R.keys t).length) :
    (∃ a ∈ Sokoban.support t, a < k) ∧ ∃ b ∈ Sokoban.support t, k < b := by
  have hroot : (R.shape t).root = some k := by
    rw [R.root_shape]
    exact R.removeRoot_root t t' k h
  rw [← R.keys_shape] at hsize
  obtain ⟨⟨a, ha, hak⟩, b, hb, hkb⟩ := (R.shape_valid t).root_interior hsize hroot
  rw [R.keys_shape] at ha hb
  exact ⟨⟨a, List.mem_toFinset.2 ha, hak⟩, b, List.mem_toFinset.2 hb, hkb⟩

def Extreme {K : Type} [LinearOrder K] (s : Finset K) (e : K) : Prop := IsLeast (s : Set K) e ∨ IsGreatest (s : Set K) e

theorem Extreme.erase {K : Type} [LinearOrder K] {s : Finset K} {e k : K} (h : Extreme s e) (ha : ∃ a ∈ s, a < k)
    (hb : ∃ b ∈ s, k < b) : Extreme (s.erase k) e := by
  obtain ⟨a, ha, hak⟩ := ha
  obtain ⟨b, hb, hkb⟩ := hb
  rcases h with ⟨hmem, hle⟩ | ⟨hmem, hge⟩
  · left
    have hek : e < k := lt_of_le_of_lt (hle ha) hak
    exact ⟨Finset.mem_erase.2 ⟨ne_of_lt hek, hmem⟩, fun x hx => hle (Finset.mem_of_mem_erase hx)⟩
  · right
    have hke : k < e := lt_of_lt_of_le hkb (hge hb)
    exact ⟨Finset.mem_erase.2 ⟨ne_of_gt hke, hmem⟩, fun x hx => hge (Finset.mem_of_mem_erase hx)⟩

theorem Extreme.mem {K : Type} [LinearOrder K] {s : Finset K} {e : K} (h : Extreme s e) : e ∈ s := by
  rcases h with ⟨hmem, -⟩ | ⟨hmem, -⟩ <;> exact hmem

namespace ScoreTable

/-- **The prune loop keeps the extremes** where it leaves two entries. -/
theorem pruneLoop_extreme : ∀ (n : Nat) {t t' : ScoreTable R.toSokoban F α m}, pruneLoop n t = .ok t' →
    (n ≠ 0 → n + 2 ≤ (R.keys t.inverse).length) → ∀ e, Extreme (Sokoban.support t.inverse) e →
      e ∈ Sokoban.support t'.inverse
  | 0, t, t', h, _, e, he => by
    cases h
    exact he.mem
  | n + 1, t, t', h, hn, e, he => by
    have hsize := hn (Nat.succ_ne_zero n)
    obtain ⟨k, inverse, hr, hlen, heq⟩ := pruneLoop_succ (t := t) (n := n) (by omega)
    rw [heq] at h
    obtain ⟨ha, hb⟩ := RedBlackSokoban.removeRoot_interior hr (by omega)
    refine pruneLoop_extreme n h (fun _ => by simp only; omega) e ?_
    rw [Sokoban.support_removeRoot hr]
    exact he.erase ha hb

def entries {S : Sokoban} (t : ScoreTable S F α m) : Set (F ×ₗ α) :=
  {e | S.get t.score (ofLex e).2 = some (ofLex e).1}

theorem Tracks.coe_support {S : Sokoban} {t : ScoreTable S F α m} {f : α → Option F} (h : Tracks t f) :
    (Sokoban.support t.inverse : Set (F ×ₗ α)) = t.entries := by
  ext e
  rw [Finset.mem_coe, h.mem_support, ← h.score]
  rfl

structure KeepsExtremes {S : Sokoban} (t t' : ScoreTable S F α m) : Prop where
  least : ∀ e, IsLeast t.entries e → e ∈ t'.entries
  greatest : ∀ e, IsGreatest t.entries e → e ∈ t'.entries

theorem Mirrors.prune {t : ScoreTable R.toSokoban F α m} (h : Mirrors t) {num : Nat} (hnum : 2 ≤ num) :
    ∃ t', t.prune num = .ok t' ∧ Prunes num t t' ∧ Mirrors t' ∧ KeepsExtremes t t' := by
  obtain ⟨t', f', e, h', hprunes⟩ := h.tracks.prunes num
  have hkeep := pruneLoop_extreme _ e (fun hne => by omega)
  unfold Extreme at hkeep
  rw [h.tracks.coe_support] at hkeep
  have hmem : ∀ e, e ∈ Sokoban.support t'.inverse → e ∈ t'.entries := by
    intro e he
    rw [← h'.coe_support]
    exact he
  exact ⟨t', e, hprunes, h'.mirrors, fun e he => hmem e (hkeep e (Or.inl he)), fun e he => hmem e (hkeep e (Or.inr he))⟩

end ScoreTable

open ScoreTable

/-- **Pruning keeps the most and the least valuable sources.**  From any model whose trees mirror each other, a prune to
two or more entries of each kind does not panic, deletes down to the limits without touching a score, leaves mirrors, and
the sources with the least and the greatest `(score, key)` are still tracked. -/
theorem prune_keepsExtremes (model : IpSignerModel R.toSokoban F maxSigners maxIps) (hip : Mirrors model.ip)
    (hsigner : Mirrors model.signer) {numIps numSigners : Nat} (hips : 2 ≤ numIps) (hsigners : 2 ≤ numSigners) :
    ∃ after, model.prune numIps numSigners = .ok after ∧
      (Prunes numIps model.ip after.ip ∧ Mirrors after.ip ∧ KeepsExtremes model.ip after.ip) ∧
      Prunes numSigners model.signer after.signer ∧ Mirrors after.signer ∧ KeepsExtremes model.signer after.signer := by
  obtain ⟨ip, eip, hip'⟩ := hip.prune hips
  obtain ⟨signer, esigner, hsigner'⟩ := hsigner.prune hsigners
  exact ⟨⟨signer, ip⟩, IpSignerModel.prune_ok eip esigner, hip', hsigner'⟩

/-- Three addresses pruned to two. -/
theorem prune_keepsExtremes_three :
    ∃ after, ((((IpSignerModel.new [] [] : IpSignerModel sortedRedBlack.toSokoban ℚ 16 16).addIpScore 1 3).addIpScore 2
        5).addIpScore 3 7).prune 2 2 = .ok after ∧
      KeepsExtremes ((((IpSignerModel.new [] [] : IpSignerModel sortedRedBlack.toSokoban ℚ 16 16).addIpScore 1
        3).addIpScore 2 5).addIpScore 3 7).ip after.ip := by
  obtain ⟨f, hf⟩ := (Represents.empty (S := sortedRedBlack.toSokoban) (m := 16)).addScore (1 : UInt32) (3 : ℚ)
  obtain ⟨f', hf'⟩ := hf.addScore 2 5
  obtain ⟨f'', hf''⟩ := hf'.addScore 3 7
  obtain ⟨after, e, ⟨-, -, hkeeps⟩, -⟩ := prune_keepsExtremes
    ((((IpSignerModel.new [] [] : IpSignerModel sortedRedBlack.toSokoban ℚ 16 16).addIpScore 1 3).addIpScore 2
      5).addIpScore 3 7) hf''.mirrors Represents.empty.mirrors (le_refl 2) (le_refl 2)
  exact ⟨after, e, hkeeps⟩

end Qos
