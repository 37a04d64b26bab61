import QuickFix.Text.Basic

/-!
# Characters and decimal digits

The digits of a number spell it, without a zero before others.
-/

namespace QuickFix.Text

/-- Checks a few characters one by one, where deciding over all characters would not end. -/
theorem forall_mem_of_all {p : Char → Prop} [DecidablePred p] {t : Text}
    (h : t.all (fun c => decide (p c)) = true) : ∀ c ∈ t, p c := fun c hc =>
  of_decide_eq_true (List.all_eq_true.1 h c hc)

theorem isDigit_of_mem_ofNat {n : Nat} {c : Char} (hc : c ∈ ofNat n) : c.isDigit = true :=
  Nat.isDigit_of_mem_toDigits (by decide) (by decide) hc

theorem ofNat_ne_nil (n : Nat) : ofNat n ≠ [] := Nat.toDigits_ne_nil

theorem ofDigitChars_ofNat (n : Nat) : Nat.ofDigitChars 10 (ofNat n) 0 = n :=
  Nat.ofDigitChars_ten_toDigits

theorem ofNat_injective {m n : Nat} (h : ofNat m = ofNat n) : m = n := by
  rw [← ofDigitChars_ofNat m, h, ofDigitChars_ofNat]

theorem head?_ofNat {n : Nat} (hn : 0 < n) : (ofNat n).head? ≠ some '0' := by
  by_cases hlt : n < 10
  · have hdigit : ∀ d < 10, 0 < d → [Nat.digitChar d].head? ≠ some '0' := by decide
    rw [ofNat, Nat.toDigits_of_lt_base hlt]
    exact hdigit n hlt hn
  · have ih := head?_ofNat (n := n / 10) (by omega)
    obtain ⟨c, ds, hds⟩ := List.exists_cons_of_ne_nil (ofNat_ne_nil (n / 10))
    rw [ofNat, Nat.toDigits_of_base_le (by decide) (by omega)]
    rw [hds] at ih
    rw [show Nat.toDigits 10 (n / 10) = c :: ds from hds]
    exact ih

end QuickFix.Text
