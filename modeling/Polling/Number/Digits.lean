/-! # Decimal digits of natural numbers

`Digits.ofNat` writes a natural number without leading zeros and `Digits.toNat` reads any run of
digits.  Reading undoes writing (`toNat_ofNat`), what is written holds digits only
(`isDigit_of_mem_ofNat`), and a number above zero starts with a digit other than zero
(`head_ofNat_ne_zero`). -/

namespace Polling

namespace Digits

/-- The digit character of `d`, for `d` below ten. -/
def digit (d : Nat) : Char := Char.ofNat (48 + d)

/-- The value of a digit character. -/
def value (c : Char) : Nat := c.toNat - 48

/-- The decimal digits of `n`, most significant first. -/
def ofNat (n : Nat) : List Char :=
  if n < 10 then [digit n] else ofNat (n / 10) ++ [digit (n % 10)]

/-- The number that a run of digits denotes. -/
def toNat (cs : List Char) : Nat := cs.foldl (fun n c => 10 * n + value c) 0

/-- How many digits `n` is written with. -/
def length (n : Nat) : Nat := (ofNat n).length

theorem value_digit {d : Nat} (h : d < 10) : value (digit d) = d := by
  revert d; decide

theorem isDigit_digit {d : Nat} (h : d < 10) : (digit d).isDigit = true := by
  revert d; decide

theorem digit_ne_zero {d : Nat} (h : d < 10) (h0 : d ≠ 0) : digit d ≠ '0' := by
  revert d; decide

theorem toNat_append_singleton (cs : List Char) (c : Char) :
    toNat (cs ++ [c]) = 10 * toNat cs + value c := by
  simp [toNat, List.foldl_append]

/-- Reading the digits of a number gives the number. -/
@[simp] theorem toNat_ofNat (n : Nat) : toNat (ofNat n) = n := by
  fun_induction ofNat n with
  | case1 n h => simp [toNat, value_digit h]
  | case2 n h ih =>
    rw [toNat_append_singleton, ih, value_digit (Nat.mod_lt _ (by decide))]
    omega

theorem isDigit_of_mem_ofNat {n : Nat} {c : Char} (h : c ∈ ofNat n) : c.isDigit = true := by
  fun_induction ofNat n with
  | case1 n hn =>
    rw [List.mem_singleton] at h
    exact h ▸ isDigit_digit hn
  | case2 n hn ih =>
    rw [List.mem_append, List.mem_singleton] at h
    rcases h with h | h
    · exact ih h
    · exact h ▸ isDigit_digit (Nat.mod_lt _ (by decide))

theorem ofNat_ne_nil (n : Nat) : ofNat n ≠ [] := by
  unfold ofNat
  split <;> simp

theorem head_ofNat_ne_zero {n : Nat} (h : n ≠ 0) : (ofNat n).head? ≠ some '0' := by
  fun_induction ofNat n with
  | case1 n hn => simpa using digit_ne_zero hn h
  | case2 n hn ih =>
    rw [List.head?_append]
    cases hd : (ofNat (n / 10)).head? with
    | none => exact absurd (List.head?_eq_none_iff.1 hd) (ofNat_ne_nil _)
    | some c => simpa [hd] using ih (by omega)

end Digits

end Polling
