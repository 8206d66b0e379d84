namespace BlockSketch.Decimal

def digitText (n : Nat) : List Char := Nat.toDigits 10 n

def digitValue (c : Char) : Nat := c.toNat - '0'.toNat

/-- The number that a run of decimal digits stands for. -/
def natOfDigits (s : List Char) : Nat := s.foldl (fun n c => 10 * n + digitValue c) 0

theorem digitValue_digitChar {d : Nat} (h : d < 10) : digitValue (Nat.digitChar d) = d := by
  have hall : ∀ e ∈ List.range 10, digitValue (Nat.digitChar e) = e := by decide
  exact hall d (List.mem_range.mpr h)

theorem isDigit_digitChar {d : Nat} (h : d < 10) : (Nat.digitChar d).isDigit = true := by
  have hall : ∀ e ∈ List.range 10, (Nat.digitChar e).isDigit = true := by decide
  exact hall d (List.mem_range.mpr h)

theorem natOfDigits_append_singleton (s : List Char) (c : Char) :
    natOfDigits (s ++ [c]) = 10 * natOfDigits s + digitValue c := by
  simp [natOfDigits, List.foldl_append]

theorem digitText_of_lt {n : Nat} (h : n < 10) : digitText n = [Nat.digitChar n] :=
  Nat.toDigits_of_lt_base h

theorem digitText_of_le {n : Nat} (h : 10 ≤ n) :
    digitText n = digitText (n / 10) ++ [Nat.digitChar (n % 10)] :=
  Nat.toDigits_of_base_le (by decide) h

theorem natOfDigits_digitText (n : Nat) : natOfDigits (digitText n) = n := by
  induction n using Nat.strongRecOn with
  | ind n ih =>
    by_cases h : n < 10
    · rw [digitText_of_lt h]
      simp [natOfDigits, digitValue_digitChar h]
    · rw [digitText_of_le (by omega), natOfDigits_append_singleton, ih (n / 10) (by omega),
        digitValue_digitChar (by omega)]
      omega

theorem digitText_inj {m n : Nat} (h : digitText m = digitText n) : m = n := by
  rw [← natOfDigits_digitText m, h, natOfDigits_digitText]

theorem isDigit_of_mem_digitText {n : Nat} {c : Char} (h : c ∈ digitText n) :
    c.isDigit = true := by
  induction n using Nat.strongRecOn with
  | ind n ih =>
    by_cases hn : n < 10
    · rw [digitText_of_lt hn, List.mem_singleton] at h
      exact h ▸ isDigit_digitChar hn
    · rw [digitText_of_le (by omega), List.mem_append, List.mem_singleton] at h
      rcases h with h | h
      · exact ih (n / 10) (by omega) h
      · exact h ▸ isDigit_digitChar (by omega)

end BlockSketch.Decimal
