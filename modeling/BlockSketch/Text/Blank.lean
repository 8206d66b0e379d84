namespace BlockSketch.Text

/-- The 25 characters with the White_Space property. -/
def isBlank (c : Char) : Bool :=
  let n := c.toNat
  (0x09 ≤ n && n ≤ 0x0D) || n == 0x20 || n == 0x85 || n == 0xA0 || n == 0x1680 ||
    (0x2000 ≤ n && n ≤ 0x200A) || n == 0x2028 || n == 0x2029 || n == 0x202F || n == 0x205F ||
    n == 0x3000

@[simp] theorem isBlank_newline : isBlank '\n' = true := by decide

@[simp] theorem isBlank_space : isBlank ' ' = true := by decide

@[simp] theorem isBlank_tab : isBlank '\t' = true := by decide

/-- Drops the last characters that satisfy `p`. -/
def dropLastWhile (p : Char → Bool) (s : List Char) : List Char := (s.reverse.dropWhile p).reverse

/-- The last characters that satisfy `p`. -/
def takeLastWhile (p : Char → Bool) (s : List Char) : List Char := (s.reverse.takeWhile p).reverse

theorem dropLastWhile_append_takeLastWhile (p : Char → Bool) (s : List Char) :
    dropLastWhile p s ++ takeLastWhile p s = s := by
  unfold dropLastWhile takeLastWhile
  rw [← List.reverse_append, List.takeWhile_append_dropWhile, List.reverse_reverse]

/-- Drops the blanks at both ends. -/
def trim (s : String) : String :=
  String.ofList (dropLastWhile isBlank (s.toList.dropWhile isBlank))

end BlockSketch.Text
