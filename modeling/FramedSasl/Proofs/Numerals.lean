import FramedSasl.Numeral
import Mathlib.Data.List.Basic

/-! Decimal numerals. They are digits, have the value that they were written from, and begin with a
zero only if that is all. -/

namespace FramedSasl

theorem toNat_ascii {c : Char} (h : c.isDigit = true) :
    48 ≤ c.toNat ∧ c.toNat ≤ 57 ∧ (UInt8.ofNat c.toNat).toNat = c.toNat := by
  simp only [Char.isDigit, Bool.and_eq_true, decide_eq_true_eq] at h
  have hleast : 48 ≤ c.toNat := h.1
  have hmost : c.toNat ≤ 57 := h.2
  exact ⟨hleast, hmost, UInt8.toNat_ofNat_of_lt' (by simp [UInt8.size]; omega)⟩

theorem isDecimalDigit_of_mem_decimal {n : Nat} {b : UInt8} (h : b ∈ decimal n) :
    isDecimalDigit b = true := by
  obtain ⟨c, hc, rfl⟩ := List.mem_map.1 h
  obtain ⟨hleast, hmost, heq⟩ :=
    toNat_ascii (Nat.isDigit_of_mem_toDigits (by decide) (by decide) hc)
  simp [isDecimalDigit, UInt8.le_iff_toNat_le, heq, hleast, hmost]

theorem foldl_ascii {cs : List Char} (h : ∀ c ∈ cs, c.isDigit = true) (acc : Nat) :
    (ascii cs).foldl (fun acc d => acc * 10 + (d.toNat - 48)) acc = Nat.ofDigitChars 10 cs acc := by
  induction cs generalizing acc with
  | nil => rfl
  | cons c cs ih =>
    obtain ⟨-, -, heq⟩ := toNat_ascii (h c List.mem_cons_self)
    have hcs := ih (fun d hd => h d (List.mem_cons_of_mem c hd))
    change (ascii cs).foldl _ (acc * 10 + ((UInt8.ofNat c.toNat).toNat - 48)) = _
    rw [hcs, heq, Nat.mul_comm]
    rfl

theorem decimalValue_decimal (n : Nat) : decimalValue (decimal n) = n :=
  (foldl_ascii (fun _ => Nat.isDigit_of_mem_toDigits (by decide) (by decide)) 0).trans
    (Nat.ofDigitChars_toDigits (by decide) (by decide))

theorem decimal_ne_nil (n : Nat) : decimal n ≠ [] :=
  fun h => Nat.toDigits_ne_nil (List.map_eq_nil_iff.1 h)

theorem digitChar_zero : ∀ n < 10, UInt8.ofNat (Nat.digitChar n).toNat = 0x30 → n = 0 := by decide

theorem eq_zero_of_head?_decimal {n : Nat} (h : (decimal n).head? = some 0x30) : n = 0 := by
  induction n using Nat.strongRecOn with
  | ind n ih =>
    rw [decimal, Nat.toDigits_eq_if (by decide)] at h
    split at h
    · next hlt => exact digitChar_zero n hlt (Option.some.inj h)
    · next hge =>
      rw [ascii, List.map_append] at h
      change (decimal (n / 10) ++ _).head? = _ at h
      rw [List.head?_append_of_ne_nil _ (decimal_ne_nil (n / 10))] at h
      have := ih (n / 10) (by omega) h
      omega

theorem exists_decimal_eq (n : Nat) : ∃ d ds, decimal n = d :: ds ∧ isDecimalDigit d = true := by
  obtain ⟨d, ds, hds⟩ := List.exists_cons_of_ne_nil (decimal_ne_nil n)
  have hmem : d ∈ decimal n := hds ▸ List.mem_cons_self
  exact ⟨d, ds, hds, isDecimalDigit_of_mem_decimal hmem⟩

end FramedSasl
