import SolanaQos.Packet
import SolanaQos.ScoreMirror
/-!
# The saved scores (`IpSignerModel::save_ip_scores`)

One line for each tracked ip: its key, read as an address from the most significant byte on, and its score.  The keys
of the forward tree are listed in their order, and each line is written with one score.

An address can be read back from its dotted text (`Ipv4Addr.display_injective`): splitting at the dots gives back the
four numbers.  It holds no space, so the text before the first space of a line is the address, and the lines of
different ips differ whatever their scores (`ipLine_injective`).  How a score prints belongs to the float type.

`OneLineEach` says that lines and tracked ips are in bijection, and `ipLine_eq_iff` whose address a line shows: that of
the ip's big-endian reading.
-/
namespace Qos

/-! ## The text of an address -/

def Ipv4Addr.fromBits (bits : UInt32) : Ipv4Addr := ⟨u32ToBeBytes bits⟩

def Ipv4Addr.display (a : Ipv4Addr) : String := ".".intercalate (a.octets.toList.map fun octet => octet.toNat.repr)

namespace Ipv4Addr

theorem toBits_injective : Function.Injective toBits := by
  intro a b h
  exact octets_injective (u32FromBeBytes_injective h)

theorem toBits_fromBits (bits : UInt32) : (fromBits bits).toBits = bits := u32FromBeBytes_toBeBytes bits

theorem fromBits_eq_iff {bits : UInt32} {a : Ipv4Addr} : fromBits bits = a ↔ a.toBits = bits := by
  constructor
  · rintro rfl
    exact toBits_fromBits bits
  · rintro rfl
    exact toBits_injective (toBits_fromBits _)

theorem toList_display (a : Ipv4Addr) :
    a.display.toList = ['.'].intercalate (a.octets.toList.map fun octet => Nat.toDigits 10 octet.toNat) := by
  unfold display
  rw [String.toList_intercalate, List.map_map]
  congr 1
  exact List.map_congr_left fun octet _ => Nat.toList_repr

theorem notMem_toDigits {c : Char} (hc : c.isDigit = false) (n : Nat) : c ∉ Nat.toDigits 10 n := by
  intro hmem
  have hdigit := Nat.isDigit_of_mem_toDigits (by decide) (by decide) hmem
  rw [hc] at hdigit
  cases hdigit

/-- **An address can be read back from its text.** -/
theorem display_injective : Function.Injective display := by
  intro a b h
  have hsplit : ∀ a : Ipv4Addr, a.display.toList.splitOn '.' =
      a.octets.toList.map fun octet => Nat.toDigits 10 octet.toNat := by
    intro a
    rw [toList_display]
    refine List.splitOn_intercalate '.' ?_ ?_
    · intro text htext
      obtain ⟨octet, -, rfl⟩ := List.mem_map.1 htext
      exact notMem_toDigits rfl _
    · rw [Ne, List.map_eq_nil_iff, ← List.length_eq_zero_iff, Vector.length_toList]
      decide
  have hmap := (hsplit a).symm.trans ((congrArg (fun text : String => text.toList.splitOn '.') h).trans (hsplit b))
  have hoctets : a.octets.toList = b.octets.toList := by
    refine List.map_injective_iff.2 (fun x y hxy => ?_) hmap
    have hrepr : x.toNat.repr = y.toNat.repr := by
      rw [Nat.repr_eq_ofList_toDigits, Nat.repr_eq_ofList_toDigits]
      exact congrArg String.ofList hxy
    exact UInt8.toNat_inj.1 (Nat.repr_injective hrepr)
  exact octets_injective (Vector.toList_inj.1 hoctets)

theorem mem_intercalate {x c : Char} : ∀ {texts : List (List Char)}, c ∈ [x].intercalate texts →
    c = x ∨ ∃ text ∈ texts, c ∈ text
  | [], h => by
    rw [List.intercalate_nil] at h
    cases h
  | [text], h => by
    rw [List.intercalate_singleton] at h
    exact Or.inr ⟨text, List.mem_singleton.2 rfl, h⟩
  | text :: text' :: texts, h => by
    rw [List.intercalate_cons_cons, List.mem_append, List.mem_append] at h
    rcases h with (h | h) | h
    · exact Or.inr ⟨text, List.mem_cons_self, h⟩
    · exact Or.inl (List.mem_singleton.1 h)
    · rcases mem_intercalate h with h | ⟨text'', hmem, h⟩
      · exact Or.inl h
      · exact Or.inr ⟨text'', List.mem_cons_of_mem _ hmem, h⟩

theorem space_notMem_display (a : Ipv4Addr) : ' ' ∉ a.display.toList := by
  rw [toList_display]
  intro hmem
  rcases mem_intercalate hmem with h | ⟨text, htext, h⟩
  · exact absurd h (by decide)
  · obtain ⟨octet, -, rfl⟩ := List.mem_map.1 htext
    exact notMem_toDigits rfl _ h

theorem line_injective {a b : Ipv4Addr} {s t : String} (h : a.display ++ " " ++ s = b.display ++ " " ++ t) : a = b := by
  have hfront : ∀ (a : Ipv4Addr) (s : String),
      (a.display ++ " " ++ s).toList.takeWhile (fun c => decide (c ≠ ' ')) = a.display.toList := by
    intro a s
    rw [String.toList_append, String.toList_append, List.append_assoc, List.takeWhile_append_of_pos]
    · show a.display.toList ++ List.takeWhile _ (' ' :: s.toList) = _
      rw [List.takeWhile_cons_of_neg (by decide), List.append_nil]
    · intro c hc
      exact decide_eq_true fun he => space_notMem_display a (he ▸ hc)
  have htext : a.display.toList = b.display.toList := by rw [← hfront a s, h, hfront b t]
  exact display_injective (String.toList_inj.1 htext)

end Ipv4Addr

/-! ## The file -/

variable {S : Sokoban} {F : Type} [LinearOrder F] {maxSigners maxIps : Nat}

namespace IpSignerModel

def ipLine (showScore : F → String) (model : IpSignerModel S F maxSigners maxIps) (ip : UInt32) : Option String :=
  (S.get model.ip.score ip).map fun score => (Ipv4Addr.fromBits ip).display ++ " " ++ showScore score

/-- The lines `save_ip_scores` writes to the file it created. -/
def saveIpScores (showScore : F → String) (model : IpSignerModel S F maxSigners maxIps) : List String :=
  (S.keys model.ip.score).filterMap (model.ipLine showScore)

theorem ipLine_injective {showScore : F → String} {model : IpSignerModel S F maxSigners maxIps} {ip ip' : UInt32}
    {line : String} (h : model.ipLine showScore ip = some line) (h' : model.ipLine showScore ip' = some line) :
    ip = ip' := by
  obtain ⟨score, -, rfl⟩ := Option.map_eq_some_iff.1 h
  obtain ⟨score', -, hline⟩ := Option.map_eq_some_iff.1 h'
  have haddr := Ipv4Addr.line_injective hline
  rw [← Ipv4Addr.toBits_fromBits ip, ← Ipv4Addr.toBits_fromBits ip', haddr]

/-- **The lines are in bijection with the tracked ips.** -/
structure OneLineEach (showScore : F → String) (model : IpSignerModel S F maxSigners maxIps) (lines : List String) :
    Prop where
  distinct : lines.Nodup
  owner : ∀ line ∈ lines, ∃! ip, model.ipLine showScore ip = some line
  line : ∀ ip, (S.get model.ip.score ip).isSome → ∃ line ∈ lines, model.ipLine showScore ip = some line

theorem saveIpScores_lines (showScore : F → String) (model : IpSignerModel S F maxSigners maxIps) :
    model.OneLineEach showScore (model.saveIpScores showScore) where
  distinct := by
    have hkeys : (S.keys model.ip.score).Nodup := (S.keys_sorted model.ip.score).imp ne_of_lt
    exact List.Nodup.filterMap (fun ip ip' line h h' => ipLine_injective h h') hkeys
  owner := fun line hline => by
    obtain ⟨ip, -, hip⟩ := List.mem_filterMap.1 hline
    exact ⟨ip, hip, fun ip' hip' => ipLine_injective hip' hip⟩
  line := fun ip hip => by
    obtain ⟨score, hscore⟩ := Option.isSome_iff_exists.1 hip
    have hline : model.ipLine showScore ip = some ((Ipv4Addr.fromBits ip).display ++ " " ++ showScore score) := by
      unfold ipLine
      rw [hscore, Option.map_some]
    exact ⟨_, List.mem_filterMap.2 ⟨ip, (S.mem_keys _ _).2 hip, hline⟩, hline⟩

/-- **Whose address a line shows**: that of the ip's big-endian reading. -/
theorem ipLine_eq_iff {showScore : F → String} {model : IpSignerModel S F maxSigners maxIps} {ip : UInt32} {score : F}
    (hscore : S.get model.ip.score ip = some score) (a : Ipv4Addr) :
    model.ipLine showScore ip = some (a.display ++ " " ++ showScore score) ↔ a.toBits = ip := by
  unfold ipLine
  rw [hscore, Option.map_some, Option.some_inj, ← Ipv4Addr.fromBits_eq_iff]
  constructor
  · exact Ipv4Addr.line_injective
  · rintro rfl
    rfl

end IpSignerModel

end Qos
