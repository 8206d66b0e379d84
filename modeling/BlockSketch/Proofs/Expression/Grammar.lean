namespace BlockSketch.Expression

inductive Operator where
  | equal
  | notEqual
  | less
  | atMost
  | greater
  | atLeast
  | add
  | subtract
  | multiply
  | divide
  | remainder
  | both
  | either
  deriving DecidableEq, Repr

namespace Operator

def all : List Operator :=
  [equal, notEqual, less, atMost, greater, atLeast, add, subtract, multiply, divide, remainder, both,
    either]

def symbol : Operator → String
  | equal => "=="
  | notEqual => "!="
  | less => "<"
  | atMost => "<="
  | greater => ">"
  | atLeast => ">="
  | add => "+"
  | subtract => "-"
  | multiply => "*"
  | divide => "/"
  | remainder => "%"
  | both => "&&"
  | either => "||"

/-- The level of an operator; a lower one binds tighter, and operands without an operator have the
level zero. -/
def level : Operator → Nat
  | multiply | divide | remainder => 1
  | add | subtract => 2
  | less | atMost | greater | atLeast => 3
  | equal | notEqual => 4
  | both => 5
  | either => 6

def ofSymbol? (s : String) : Option Operator := all.find? (·.symbol == s)

theorem level_pos (op : Operator) : 0 < op.level := by cases op <;> decide

theorem level_le (op : Operator) : op.level ≤ 6 := by cases op <;> decide

end Operator

inductive Port where
  | digital
  | analog
  deriving DecidableEq, Repr

def Port.reader : Port → String
  | digital => "digitalRead"
  | analog => "analogRead"

def Port.ofReader? (f : String) : Option Port :=
  [Port.digital, Port.analog].find? (·.reader == f)

/-- An expression. A number, and the number of a pin, is the text that it is written as. -/
inductive Expr where
  | number (text : String)
  | truth (value : Bool)
  | text (content : String)
  | read (port : Port) (pin : String)
  | binary (op : Operator) (left right : Expr)
  deriving DecidableEq, Repr

inductive Token where
  | number (text : String)
  | text (content : String)
  | word (text : String)
  | operator (op : Operator)
  | opening
  | closing
  deriving DecidableEq, Repr

def truthWord : Bool → String
  | true => "true"
  | false => "false"

/-- A number with at most a minus in front of it. -/
inductive Signed : List Token → String → Prop where
  | plain (s : String) : Signed [.number s] s
  | negative (s : String) : Signed [.operator .subtract, .number s] ("-" ++ s)

/-- The tokens are an expression of this level. The right operand of an operator is of the level
below. -/
inductive Derives : Nat → List Token → Expr → Prop where
  | number {ts : List Token} {s : String} (h : Signed ts s) : Derives 0 ts (.number s)
  | truth (b : Bool) : Derives 0 [.word (truthWord b)] (.truth b)
  | text (s : String) : Derives 0 [.text s] (.text s)
  | read (port : Port) {ts : List Token} {s : String} (h : Signed ts s) :
    Derives 0 (.word port.reader :: .opening :: ts ++ [.closing]) (.read port s)
  | parens {ts : List Token} {e : Expr} (h : Derives 6 ts e) :
    Derives 0 (.opening :: ts ++ [.closing]) e
  | looser {k : Nat} {ts : List Token} {e : Expr} (h : Derives k ts e) : Derives (k + 1) ts e
  | binary {op : Operator} {k : Nat} {ts us : List Token} {a b : Expr} (hop : op.level = k + 1)
    (ha : Derives (k + 1) ts a) (hb : Derives k us b) :
    Derives (k + 1) (ts ++ .operator op :: us) (.binary op a b)

theorem Derives.mono {j k : Nat} {ts : List Token} {e : Expr} (h : Derives j ts e) (hjk : j ≤ k) :
    Derives k ts e := by
  induction hjk with
  | refl => exact h
  | step _ ih => exact .looser ih

inductive Goal where
  | start (level : Nat)
  | resume (level : Nat) (left : Expr)

/-- An optional minus and a number, and the tokens after it. -/
def takeSigned? : List Token → Option (String × List Token)
  | .number s :: r => some (s, r)
  | .operator .subtract :: .number s :: r => some ("-" ++ s, r)
  | _ => none

/-- Reads operands and operators from left to right, in at most `n` nested steps, and gives the rest
of the tokens as well. -/
def descend : Nat → Goal → List Token → Option (Expr × List Token)
  | 0, _, _ => none
  | n + 1, .start 0, ts =>
    match ts with
    | .text s :: r => some (.text s, r)
    | .opening :: r =>
      match descend n (.start 6) r with
      | some (e, .closing :: r') => some (e, r')
      | _ => none
    | .word f :: r =>
      if f = truthWord true then some (.truth true, r)
      else if f = truthWord false then some (.truth false, r)
      else
        match Port.ofReader? f, r with
        | some port, .opening :: r' =>
          match takeSigned? r' with
          | some (s, .closing :: r'') => some (.read port s, r'')
          | _ => none
        | _, _ => none
    | ts => (takeSigned? ts).map fun (s, r) => (.number s, r)
  | n + 1, .start (k + 1), ts =>
    match descend n (.start k) ts with
    | some (a, r) => descend n (.resume (k + 1) a) r
    | none => none
  | n + 1, .resume k a, ts =>
    match ts with
    | .operator op :: r =>
      if op.level = k then
        match descend n (.start (k - 1)) r with
        | some (b, r') => descend n (.resume k (.binary op a b)) r'
        | none => none
      else some (a, ts)
    | _ => some (a, ts)

/-- Given enough steps the tokens are read in this way. -/
def Parses (goal : Goal) (ts : List Token) (e : Expr) (rest : List Token) : Prop :=
  ∃ n, ∀ m, n ≤ m → descend m goal ts = some (e, rest)

namespace Parses

variable {ts r r' : List Token} {a b e e' : Expr} {k : Nat} {goal : Goal} {op : Operator}

theorem unique (h : Parses goal ts e r) (h' : Parses goal ts e' r') : e = e' ∧ r = r' := by
  obtain ⟨n, hn⟩ := h
  obtain ⟨n', hn'⟩ := h'
  have he := hn (max n n') (Nat.le_max_left n n')
  rw [hn' (max n n') (Nat.le_max_right n n')] at he
  simp only [Option.some.injEq, Prod.mk.injEq] at he
  exact ⟨he.1.symm, he.2.symm⟩

theorem of_succ {n : Nat} (h : ∀ m, n ≤ m → descend (m + 1) goal ts = some (e, r)) :
    Parses goal ts e r := by
  refine ⟨n + 1, fun m hm => ?_⟩
  obtain ⟨m, rfl⟩ : ∃ m', m = m' + 1 := ⟨m - 1, by omega⟩
  exact h m (by omega)

theorem parens (h : Parses (.start 6) ts e (.closing :: r)) :
    Parses (.start 0) (.opening :: ts) e r := by
  obtain ⟨n, hn⟩ := h
  refine of_succ fun m (hm : n ≤ m) => ?_
  simp [descend, hn m hm]

theorem operand (h : Parses (.start k) ts a r) (h' : Parses (.resume (k + 1) a) r e r') :
    Parses (.start (k + 1)) ts e r' := by
  obtain ⟨n, hn⟩ := h
  obtain ⟨n', hn'⟩ := h'
  refine of_succ fun m (hm : max n n' ≤ m) => ?_
  simp [descend, hn m (by omega), hn' m (by omega)]

theorem stop (h : ∀ op r', r = .operator op :: r' → op.level ≠ k) :
    Parses (.resume k a) r a r := by
  refine of_succ (n := 0) fun m _ => ?_
  cases r with
  | nil => simp [descend]
  | cons t r =>
    cases t with
    | operator op => simp [descend, h op r rfl]
    | _ => simp [descend]

theorem step (hop : op.level = k + 1) (h : Parses (.start k) ts b r)
    (h' : Parses (.resume (k + 1) (.binary op a b)) r e r') :
    Parses (.resume (k + 1) a) (.operator op :: ts) e r' := by
  obtain ⟨n, hn⟩ := h
  obtain ⟨n', hn'⟩ := h'
  refine of_succ fun m (hm : max n n' ≤ m) => ?_
  simp [descend, hop, hn m (by omega), hn' m (by omega)]

end Parses

theorem takeSigned?_append {ts : List Token} {s : String} (h : Signed ts s) (r : List Token) :
    takeSigned? (ts ++ r) = some (s, r) := by
  cases h <;> rfl

/-- Tokens do not go on with an operator that binds tighter than a level. -/
def EndsBelow (k : Nat) (r : List Token) : Prop :=
  ∀ op r', r = .operator op :: r' → k ≤ op.level

theorem EndsBelow.mono {j k : Nat} {r : List Token} (h : EndsBelow k r) (hjk : j ≤ k) :
    EndsBelow j r := fun op r' hr => Nat.le_trans hjk (h op r' hr)

theorem EndsBelow.stop {k : Nat} {r : List Token} (h : EndsBelow (k + 1) r) (a : Expr) :
    Parses (.resume k a) r a r := by
  refine Parses.stop fun op r' hr => ?_
  have hk := h op r' hr
  omega

theorem Derives.parses_of_operand {ts r r' : List Token} {e e' : Expr}
    (h : Parses (.start 0) (ts ++ r) e r) (hr : Parses (.resume 0 e) r e' r') :
    Parses (.start 0) (ts ++ r) e' r' := by
  -- No operator has the level of an operand, so there is nothing to go on with.
  have hstop : Parses (.resume 0 e) r e r :=
    Parses.stop fun op _ _ => Nat.ne_of_gt op.level_pos
  obtain ⟨rfl, rfl⟩ := hr.unique hstop
  exact h

/-- Reading what is derived at a level comes down to going on after it. -/
theorem Derives.parses {k : Nat} {ts : List Token} {e : Expr} (h : Derives k ts e) :
    ∀ {r e' r'}, EndsBelow k r → Parses (.resume k e) r e' r' →
      Parses (.start k) (ts ++ r) e' r' := by
  induction h with
  | number h =>
    intro r e' r' _ hr
    have hs := takeSigned?_append h r
    refine parses_of_operand (Parses.of_succ (n := 0) fun m _ => ?_) hr
    cases h <;> simp_all [descend]
  | truth b =>
    intro r e' r' _ hr
    refine parses_of_operand (Parses.of_succ (n := 0) fun m _ => ?_) hr
    cases b <;> simp [descend, truthWord]
  | text s =>
    intro r e' r' _ hr
    exact parses_of_operand (Parses.of_succ (n := 0) fun m _ => rfl) hr
  | read port h =>
    intro r e' r' _ hr
    have hs := takeSigned?_append h (.closing :: r)
    have hp : Port.ofReader? port.reader = some port := by cases port <;> decide
    have ht : port.reader ≠ truthWord true := by cases port <;> decide
    have hf : port.reader ≠ truthWord false := by cases port <;> decide
    refine parses_of_operand (Parses.of_succ (n := 0) fun m _ => ?_) hr
    simp [descend, ht, hf, hp, hs]
  | parens h ih =>
    intro r e' r' _ hr
    have hclosing : EndsBelow 7 (.closing :: r) := fun op r' he => by cases he
    have hinner := ih (hclosing.mono (by decide)) (hclosing.stop _)
    exact parses_of_operand (by simpa using hinner.parens) hr
  | looser h ih =>
    intro r e' r' hk hr
    exact .operand (ih (hk.mono (Nat.le_succ _)) (hk.stop _)) hr
  | binary hop ha hb iha ihb =>
    -- The left operand is read first, and going on after it reads the operator and the right one.
    intro r e' r' hk hr
    rw [List.append_assoc, List.cons_append]
    refine iha (fun op' r'' he => ?_) (.step hop (ihb (hk.mono (Nat.le_succ _)) (hk.stop _)) hr)
    cases he
    exact Nat.le_of_eq hop.symm

/-- The grammar is unambiguous: tokens are an expression of a level in at most one way. -/
theorem Derives.unique {k : Nat} {ts : List Token} {e e' : Expr} (h : Derives k ts e)
    (h' : Derives k ts e') : e = e' := by
  have hend (j : Nat) : EndsBelow j [] := fun op r' he => by cases he
  have hp := h.parses (hend k) ((hend (k + 1)).stop e)
  have hp' := h'.parses (hend k) ((hend (k + 1)).stop e')
  exact (hp.unique hp').1

end BlockSketch.Expression
