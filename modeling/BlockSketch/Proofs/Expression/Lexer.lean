import BlockSketch.Proofs.Decimal.Numeral
import BlockSketch.Proofs.Expression.Grammar

namespace BlockSketch.Expression

/-- The punctuators of program text that begin like an operator. The last two begin a comment. -/
def punctuators : List (List Char) :=
  ["==", "!=", "<", "<=", ">", ">=", "+", "-", "*", "/", "%", "&&", "||", "=", "!", "&", "|", "^",
    "++", "--", "->", "<<", ">>", "+=", "-=", "*=", "/=", "%=", "&=", "|=", "^=", "<<=", ">>=", "//",
    "/*"].map String.toList

inductive Mode where
  | gap
  | whole (t : Token)
  | word (s : List Char)
  | digits (s : List Char)
  | point (s : List Char)
  | places (s : List Char)
  | symbol (s : List Char)
  | quote (s : List Char)
  deriving DecidableEq

namespace Mode

/-- Adds a character to the latest token, if it may belong to it. -/
def extend (c : Char) : Mode → Option Mode
  | gap => none
  | whole _ => none
  | word s => if c.isAlphanum then some (.word (s ++ [c])) else none
  | digits s =>
    if c.isDigit then some (.digits (s ++ [c]))
    else if c = '.' then some (.point (s ++ [c]))
    else none
  | point s => if c.isDigit then some (.places (s ++ [c])) else none
  | places s => if c.isDigit then some (.places (s ++ [c])) else none
  | symbol s =>
    if s ++ [c] ∈ punctuators then some (.symbol (s ++ [c])) else none
  | quote s =>
    if c = '"' then some (.whole (.text (String.ofList s)))
    else if c = '\\' ∨ c = '\n' then none
    else some (.quote (s ++ [c]))

/-- The latest token, if what was read of it is one. -/
def close : Mode → Option (List Token)
  | gap => some []
  | whole t => some [t]
  | word s => some [.word (String.ofList s)]
  | digits s => some [.number (String.ofList s)]
  | places s => some [.number (String.ofList s)]
  | symbol s => (Operator.ofSymbol? (String.ofList s)).map fun op => [.operator op]
  | point _ => none
  | quote _ => none

def start? (c : Char) : Option Mode :=
  if c.isDigit then some (.digits [c])
  else if c.isAlpha then some (.word [c])
  else if c.isWhitespace then some .gap
  else if c = '(' then some (.whole .opening)
  else if c = ')' then some (.whole .closing)
  else if c = '"' then some (.quote [])
  else if [c] ∈ punctuators then some (.symbol [c])
  else none

end Mode

/-- The tokens of a text, given what was read before it. -/
def lexFrom : Mode → List Char → Option (List Token)
  | m, [] => m.close
  | m, c :: s =>
    match m.extend c with
    | some m' => lexFrom m' s
    | none =>
      match m.close, Mode.start? c with
      | some ts, some m' => (lexFrom m' s).map (ts ++ ·)
      | _, _ => none

def lex (s : String) : Option (List Token) := lexFrom .gap s.toList

/-- Blanks and parentheses, which end every token in front of them. -/
def breaks : List Char := [' ', '(', ')']

theorem not_mem_punctuator {c : Char} (hc : c ∈ breaks ∨ c.isDigit = true) (s : List Char) :
    s ++ [c] ∉ punctuators := by
  intro h
  have hall : (punctuators.all fun p => p.all fun d => !(breaks.contains d || d.isDigit)) = true := by
    decide
  simp only [List.all_eq_true] at hall
  have hd := hall _ h c (by simp)
  rcases hc with hc | hc <;> simp [hc] at hd

theorem Mode.extend_of_break {c : Char} (hc : c ∈ breaks) {m : Mode} {ts : List Token}
    (h : m.close = some ts) : m.extend c = none := by
  have hclass : c.isAlphanum = false ∧ c.isDigit = false ∧ c ≠ '.' := by
    simp only [breaks, List.mem_cons, List.not_mem_nil, or_false] at hc
    rcases hc with rfl | rfl | rfl <;> decide
  obtain ⟨hw, hd, hp⟩ := hclass
  cases m with
  | symbol s => simp [extend, not_mem_punctuator (.inl hc)]
  | quote s => simp [close] at h
  | _ => simp [extend, hw, hd, hp]

/-- A text is cut into tokens in front of a break and after it. -/
theorem lexFrom_append {c : Char} (hc : c ∈ breaks) {m' : Mode} (hs : Mode.start? c = some m')
    (b : List Char) : ∀ (a : List Char) {m : Mode} {ts : List Token}, lexFrom m a = some ts →
      lexFrom m (a ++ c :: b) = (lexFrom m' b).map (ts ++ ·) := by
  -- By induction on the text in front of the break, whatever was read before it.
  intro a
  induction a with
  | nil =>
    intro m ts h
    have hclose : m.close = some ts := h
    simp [lexFrom, Mode.extend_of_break hc hclose, hclose, hs]
  | cons d a ih =>
    intro m ts h
    rw [List.cons_append, lexFrom]
    rw [lexFrom] at h
    cases he : m.extend d with
    | some m₁ =>
      simp only [he] at h ⊢
      exact ih h
    | none =>
      simp only [he] at h ⊢
      cases hm : m.close with
      | none => simp [hm] at h
      | some done =>
        cases hd : Mode.start? d with
        | none => simp [hm, hd] at h
        | some m₁ =>
          simp only [hm, hd, Option.map_eq_some_iff] at h ⊢
          obtain ⟨rest, hrest, rfl⟩ := h
          rw [ih hrest]
          cases lexFrom m' b <;> simp

theorem lexFrom_whole (t : Token) (s : List Char) :
    lexFrom (.whole t) s = (lexFrom .gap s).map (t :: ·) := by
  cases s with
  | nil => rfl
  | cons c s => cases h : Mode.start? c <;> simp [lexFrom, Mode.extend, Mode.close, h]

theorem lex_space {a b : String} {ts us : List Token} (ha : lex a = some ts) (hb : lex b = some us) :
    lex (a ++ " " ++ b) = some (ts ++ us) := by
  have hstart : Mode.start? ' ' = some .gap := by decide
  have h := lexFrom_append (by decide) hstart b.toList a.toList ha
  have hb : lexFrom .gap b.toList = some us := hb
  simpa [lex, hb] using h

theorem lex_opening {a b : String} {ts us : List Token} (ha : lex a = some ts)
    (hb : lex b = some us) : lex (a ++ "(" ++ b) = some (ts ++ .opening :: us) := by
  have hstart : Mode.start? '(' = some (.whole .opening) := by decide
  have h := lexFrom_append (by decide) hstart b.toList a.toList ha
  have hb : lexFrom .gap b.toList = some us := hb
  simpa [lex, lexFrom_whole, hb] using h

theorem lex_closing {a : String} {ts : List Token} (ha : lex a = some ts) :
    lex (a ++ ")") = some (ts ++ [.closing]) := by
  have hstart : Mode.start? ')' = some (.whole .closing) := by decide
  have h := lexFrom_append (by decide) hstart [] a.toList ha
  simpa [lex, lexFrom, Mode.close] using h

theorem lex_parens {a : String} {ts : List Token} (ha : lex a = some ts) :
    lex ("(" ++ a ++ ")") = some (.opening :: ts ++ [.closing]) := by
  have hnothing : lex "" = some [] := rfl
  have h := lex_closing (lex_opening hnothing ha)
  rw [String.empty_append] at h
  exact h

theorem lex_symbol (op : Operator) : lex op.symbol = some [.operator op] := by
  cases op <;> decide

theorem lex_truthWord (b : Bool) : lex (truthWord b) = some [.word (truthWord b)] := by
  cases b <;> decide

theorem lex_reader (port : Port) : lex port.reader = some [.word port.reader] := by
  cases port <;> decide

theorem lexFrom_digits {s : List Char} (h : ∀ c ∈ s, c.isDigit = true) (r : List Char) :
    ∀ p, lexFrom (.digits p) (s ++ r) = lexFrom (.digits (p ++ s)) r := by
  induction s with
  | nil => simp
  | cons c s ih =>
    intro p
    have hc := h c List.mem_cons_self
    have hs := ih (fun d hd => h d (List.mem_cons_of_mem c hd)) (p ++ [c])
    simpa [lexFrom, Mode.extend, hc] using hs

theorem lexFrom_places {s : List Char} (h : ∀ c ∈ s, c.isDigit = true) :
    ∀ p, lexFrom (.places p) s = some [.number (String.ofList (p ++ s))] := by
  induction s with
  | nil => simp [lexFrom, Mode.close]
  | cons c s ih =>
    intro p
    have hc := h c List.mem_cons_self
    have hs := ih (fun d hd => h d (List.mem_cons_of_mem c hd)) (p ++ [c])
    simpa [lexFrom, Mode.extend, hc] using hs

/-- A numeral begins with a digit, and the rest completes it to one token. -/
theorem lexFrom_numeral {s : List Char} (h : Decimal.IsNumeral s) :
    ∃ c r, s = c :: r ∧ c.isDigit = true ∧
      lexFrom (.digits [c]) r = some [.number (String.ofList s)] := by
  rcases h with ⟨hne, hd⟩ | ⟨whole, places, ⟨hne, hd⟩, ⟨hne', hd'⟩, rfl⟩
  · obtain ⟨c, r, rfl⟩ := List.exists_cons_of_ne_nil hne
    refine ⟨c, r, rfl, hd c List.mem_cons_self, ?_⟩
    have hr := lexFrom_digits (fun d hm => hd d (List.mem_cons_of_mem c hm)) [] [c]
    simpa [lexFrom, Mode.close] using hr
  · obtain ⟨c, w, rfl⟩ := List.exists_cons_of_ne_nil hne
    obtain ⟨d, r, rfl⟩ := List.exists_cons_of_ne_nil hne'
    refine ⟨c, w ++ '.' :: d :: r, by simp, hd c List.mem_cons_self, ?_⟩
    have hpoint : Char.isDigit '.' = false := by decide
    have hplace := hd' d List.mem_cons_self
    have hr := lexFrom_places (fun x hm => hd' x (List.mem_cons_of_mem d hm))
      (c :: w ++ ['.'] ++ [d])
    rw [lexFrom_digits (fun x hm => hd x (List.mem_cons_of_mem c hm))]
    simpa [lexFrom, Mode.extend, hpoint, hplace] using hr

theorem lex_numeral {s : List Char} (h : Decimal.IsNumeral s) :
    lex (String.ofList s) = some [.number (String.ofList s)] := by
  obtain ⟨c, r, rfl, hc, hr⟩ := lexFrom_numeral h
  simp [lex, lexFrom, Mode.extend, Mode.close, Mode.start?, hc, hr]

theorem lex_negative {s : List Char} (h : Decimal.IsNumeral s) :
    lex ("-" ++ String.ofList s) = some [.operator .subtract, .number (String.ofList s)] := by
  obtain ⟨c, r, rfl, hc, hr⟩ := lexFrom_numeral h
  have hminus : Mode.start? '-' = some (.symbol ['-']) := by decide
  have hsymbol : Operator.ofSymbol? "-" = some .subtract := by decide
  have hp : ['-', c] ∉ punctuators := not_mem_punctuator (.inr hc) ['-']
  have hstart : Mode.start? c = some (.digits [c]) := by simp [Mode.start?, hc]
  simp [lex, lexFrom, Mode.extend, Mode.close, hminus, hp, hsymbol, hstart, hr]

/-- A text that can stand in quotes as it is. -/
def Quotable (s : String) : Prop := ∀ c ∈ s.toList, c ≠ '"' ∧ c ≠ '\\' ∧ c ≠ '\n'

theorem lexFrom_quote {s : List Char} (h : ∀ c ∈ s, c ≠ '"' ∧ c ≠ '\\' ∧ c ≠ '\n') :
    ∀ p, lexFrom (.quote p) (s ++ ['"']) = some [.text (String.ofList (p ++ s))] := by
  induction s with
  | nil => simp [lexFrom, Mode.extend, Mode.close]
  | cons c s ih =>
    intro p
    obtain ⟨hq, hb, hn⟩ := h c List.mem_cons_self
    have hs := ih (fun d hd => h d (List.mem_cons_of_mem c hd)) (p ++ [c])
    simpa [lexFrom, Mode.extend, hq, hb, hn] using hs

theorem lex_quoted {s : String} (h : Quotable s) : lex ("\"" ++ s ++ "\"") = some [.text s] := by
  have hs := lexFrom_quote h []
  have hstart : Mode.start? '"' = some (.quote []) := by decide
  simp only [List.nil_append, String.ofList_toList] at hs
  simp [lex, lexFrom, Mode.extend, Mode.close, hstart, hs]

/-- The text reads as an expression of this level. -/
def ReadsAt (k : Nat) (code : String) (e : Expr) : Prop := ∃ ts, lex code = some ts ∧ Derives k ts e

def Reads (code : String) (e : Expr) : Prop := ReadsAt 6 code e

namespace ReadsAt

variable {j k : Nat} {code code' pin : String} {a b e e' : Expr} {op : Operator}

theorem unique (h : ReadsAt k code e) (h' : ReadsAt k code e') : e = e' := by
  obtain ⟨ts, hl, hd⟩ := h
  obtain ⟨ts', hl', hd'⟩ := h'
  rw [hl, Option.some.injEq] at hl'
  subst hl'
  exact hd.unique hd'

theorem mono (h : ReadsAt j code e) (hjk : j ≤ k) : ReadsAt k code e := by
  obtain ⟨ts, hl, hd⟩ := h
  exact ⟨ts, hl, hd.mono hjk⟩

theorem parens (h : ReadsAt 6 code e) : ReadsAt 0 ("(" ++ code ++ ")") e := by
  obtain ⟨ts, hl, hd⟩ := h
  exact ⟨_, lex_parens hl, .parens hd⟩

theorem truth (b : Bool) : ReadsAt 0 (truthWord b) (.truth b) :=
  ⟨_, lex_truthWord b, .truth b⟩

theorem quoted {s : String} (h : Quotable s) : ReadsAt 0 ("\"" ++ s ++ "\"") (.text s) :=
  ⟨_, lex_quoted h, .text s⟩

theorem binary (hop : op.level = k + 1) (ha : ReadsAt (k + 1) code a) (hb : ReadsAt k code' b) :
    ReadsAt (k + 1) (code ++ " " ++ op.symbol ++ " " ++ code') (.binary op a b) := by
  obtain ⟨ts, hl, hd⟩ := ha
  obtain ⟨us, hl', hd'⟩ := hb
  have hlex := lex_space (lex_space hl (lex_symbol op)) hl'
  rw [List.append_assoc, List.singleton_append] at hlex
  exact ⟨_, hlex, .binary hop hd hd'⟩

end ReadsAt

/-- A number in program text: a numeral with at most a minus in front. -/
theorem lex_signed {s : List Char} {code : String} (h : Decimal.IsNumeral s)
    (hc : code = String.ofList s ∨ code = "-" ++ String.ofList s) :
    ∃ ts, lex code = some ts ∧ Signed ts code := by
  rcases hc with rfl | rfl
  · exact ⟨_, lex_numeral h, .plain _⟩
  · exact ⟨_, lex_negative h, .negative _⟩

theorem readsAt_read {code : String} {ts : List Token} (port : Port) (hl : lex code = some ts)
    (hs : Signed ts code) :
    ReadsAt 0 (port.reader ++ "(" ++ code ++ ")") (.read port code) := by
  have hlex := lex_closing (lex_opening (lex_reader port) hl)
  exact ⟨_, hlex, .read port hs⟩

end BlockSketch.Expression
