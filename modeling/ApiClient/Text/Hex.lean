/-!
# Hexadecimal digits

* `Hex.digit`, `Hex.capital`: the digit of a number below sixteen, as a small or a capital letter;
* `Hex.value?`: the number that a digit of either case stands for;
* `value?_digit`, `value?_capital`: reading a digit gives back its number.
-/

namespace ApiClient.Text.Hex

/-- The digit of `n`, for `n` below sixteen, with small letters. -/
def digit (n : Nat) : Char :=
  if n < 10 then Char.ofNat ('0'.toNat + n) else Char.ofNat ('a'.toNat + (n - 10))

/-- The digit of `n`, for `n` below sixteen, with capital letters. -/
def capital (n : Nat) : Char :=
  if n < 10 then Char.ofNat ('0'.toNat + n) else Char.ofNat ('A'.toNat + (n - 10))

/-- The number that a digit stands for. -/
def value? (c : Char) : Option Nat :=
  if c.isDigit then some (c.toNat - '0'.toNat)
  else if 'a' ≤ c ∧ c ≤ 'f' then some (c.toNat - 'a'.toNat + 10)
  else if 'A' ≤ c ∧ c ≤ 'F' then some (c.toNat - 'A'.toNat + 10)
  else none

theorem value?_digit : ∀ n < 16, value? (digit n) = some n := by decide

theorem value?_capital : ∀ n < 16, value? (capital n) = some n := by decide

end ApiClient.Text.Hex
