import Mathlib
/-!
# Bytes and fixed-width keys

The two 32-bit readings of four octets, little-endian (`u32FromLeBytes`, Rust's `u32::from_le_bytes`) and big-endian
(`u32FromBeBytes`), with their inverses, and the 64-bit little-endian reading.  All of them are values of byte lists in
base 256 (`leNat`), least significant byte first.

* Either reading tells four octets apart (`u32FromLeBytes_injective`, `u32FromBeBytes_injective`).
* They agree exactly on the octets that read the same from both ends (`u32FromBeBytes_eq_iff`).  The program files an
  address under one reading and looks it up under the other in two places.

The orders on `UInt32` and on 32-byte keys are the ones Rust derives: numeric, and lexicographic by byte.
-/
namespace Qos

/-! ## Little-endian values -/

/-- The value of a byte list, least significant byte first. -/
def leNat (bs : List UInt8) : Nat := Nat.ofDigits 256 (bs.map UInt8.toNat)

theorem lt_of_mem_map_toNat (bs : List UInt8) : ∀ x ∈ bs.map UInt8.toNat, x < 256 := by
  intro x hx
  obtain ⟨b, -, rfl⟩ := List.mem_map.1 hx
  exact b.toNat_lt

theorem leNat_lt (bs : List UInt8) : leNat bs < 256 ^ bs.length := by
  have := Nat.ofDigits_lt_base_pow_length (by decide) (lt_of_mem_map_toNat bs)
  simpa [leNat] using this

theorem leNat_injective {bs cs : List UInt8} (hlen : bs.length = cs.length) (h : leNat bs = leNat cs) : bs = cs := by
  have hdigits : bs.map UInt8.toNat = cs.map UInt8.toNat := by
    exact Nat.ofDigits_inj_of_len_eq (b := 256) (by decide) (by simp [hlen]) (lt_of_mem_map_toNat bs)
      (lt_of_mem_map_toNat cs) h
  exact List.map_injective_iff.2 (fun a b hab => UInt8.toNat_inj.1 hab) hdigits

def u32FromLeBytes (v : Vector UInt8 4) : UInt32 := UInt32.ofNat (leNat v.toList)

def u32FromBeBytes (v : Vector UInt8 4) : UInt32 := UInt32.ofNat (leNat v.toList.reverse)

def u32ToBeBytes (x : UInt32) : Vector UInt8 4 := Vector.ofFn fun i : Fin 4 => UInt8.ofNat (x.toNat / 256 ^ (3 - i.val))

def u64FromLeBytes (v : Vector UInt8 8) : UInt64 := UInt64.ofNat (leNat v.toList)

theorem u32_ofNat_leNat_injective {bs cs : List UInt8} (hb : bs.length = 4) (hc : cs.length = 4)
    (h : UInt32.ofNat (leNat bs) = UInt32.ofNat (leNat cs)) : bs = cs := by
  have hlb : leNat bs < 2 ^ 32 := by have := leNat_lt bs; rw [hb] at this; exact this
  have hlc : leNat cs < 2 ^ 32 := by have := leNat_lt cs; rw [hc] at this; exact this
  have hn := congrArg UInt32.toNat h
  rw [UInt32.toNat_ofNat', UInt32.toNat_ofNat', Nat.mod_eq_of_lt hlb, Nat.mod_eq_of_lt hlc] at hn
  exact leNat_injective (hb.trans hc.symm) hn

theorem u32FromLeBytes_injective {v w : Vector UInt8 4} (h : u32FromLeBytes v = u32FromLeBytes w) : v = w :=
  Vector.toList_inj.1 (u32_ofNat_leNat_injective (by simp) (by simp) h)

theorem u32FromBeBytes_injective {v w : Vector UInt8 4} (h : u32FromBeBytes v = u32FromBeBytes w) : v = w := by
  have hrev := u32_ofNat_leNat_injective (List.length_reverse.trans v.length_toList)
    (List.length_reverse.trans w.length_toList) h
  exact Vector.toList_inj.1 (List.reverse_injective hrev)

theorem u32FromBeBytes_toBeBytes (x : UInt32) : u32FromBeBytes (u32ToBeBytes x) = x := by
  have hx := x.toNat_lt
  have hbytes : (u32ToBeBytes x).toList.reverse.map UInt8.toNat =
      [x.toNat % 256, x.toNat / 256 % 256, x.toNat / 65536 % 256, x.toNat / 16777216 % 256] := by
    simp [u32ToBeBytes, Vector.toList_ofFn, List.ofFn_succ]
  unfold u32FromBeBytes leNat
  rw [hbytes]
  simp only [Nat.ofDigits_cons, Nat.ofDigits_nil]
  rw [← UInt32.toNat_inj, UInt32.toNat_ofNat']
  omega

/-- **The two byte orders agree exactly on palindromes.** -/
theorem u32FromBeBytes_eq_iff (v : Vector UInt8 4) :
    u32FromBeBytes v = u32FromLeBytes v ↔ v.toList.reverse = v.toList :=
  ⟨fun h => u32_ofNat_leNat_injective (by simp) (by simp) h,
    fun h => by unfold u32FromBeBytes u32FromLeBytes; rw [h]⟩

/-! ## Orders -/

instance linearOrderUInt32 : LinearOrder UInt32 where
  le_refl := UInt32.le_refl
  le_trans := fun _ _ _ => UInt32.le_trans
  le_antisymm := fun _ _ => UInt32.le_antisymm
  le_total := UInt32.le_total
  lt_iff_le_not_ge := fun a b => by
    rw [UInt32.lt_iff_toNat_lt, UInt32.le_iff_toNat_le, UInt32.le_iff_toNat_le]
    omega
  toDecidableLE := fun a b => inferInstanceAs (Decidable (a ≤ b))
  toDecidableLT := fun a b => inferInstanceAs (Decidable (a < b))
  toDecidableEq := inferInstance

structure Pubkey where
  bytes : Vector UInt8 32

theorem Pubkey.bytes_injective : Function.Injective (fun k : Pubkey => k.bytes.toList.map UInt8.toNat) := by
  intro a b h
  have hl : a.bytes.toList = b.bytes.toList := List.map_injective_iff.2 (fun _ _ hab => UInt8.toNat_inj.1 hab) h
  cases a
  cases b
  exact congrArg Pubkey.mk (Vector.toList_inj.1 hl)

instance linearOrderPubkey : LinearOrder Pubkey :=
  LinearOrder.lift' (fun k => k.bytes.toList.map UInt8.toNat) Pubkey.bytes_injective

end Qos
