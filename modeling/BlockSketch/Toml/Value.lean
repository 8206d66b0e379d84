namespace BlockSketch.Toml

/-- How a table came to be, which decides what may still be added to it. -/
inductive Origin where
  /-- By a header of its own. -/
  | header
  /-- By a header that goes through it. -/
  | implied
  /-- By a dotted key. -/
  | dotted
  /-- In braces; nothing can be added. -/
  | inline
  deriving DecidableEq, Repr

inductive Value where
  | text (s : String)
  | flag (b : Bool)
  /-- A number or a point in time, as it is written. -/
  | literal (s : String)
  | list (items : List Value)
  /-- Tables under one repeated header, the latest first. -/
  | tables (items : List Value)
  | table (origin : Origin) (entries : List (String × Value))

abbrev Entries := List (String × Value)

def find? (k : String) : Entries → Option Value
  | [] => none
  | e :: r => if e.1 = k then some e.2 else find? k r

/-- Changes the value under `k`, which may be absent; it is added at the end. -/
def alter (k : String) (f : Option Value → Option Value) : Entries → Option Entries
  | [] => (f none).map fun v => [(k, v)]
  | e :: r =>
    if e.1 = k then (f (some e.2)).map fun v => (k, v) :: r
    else (alter k f r).map fun r' => e :: r'

/-- Adds a value at the end of a path of keys. Tables on the way may be new, and go on from a header
that goes through them; the one that gets the value belongs to dotted keys alone. -/
def define (v : Value) : List String → Entries → Option Entries
  | [], _ => none
  | [k], entries =>
    alter k (fun old => match old with
      | none => some v
      | some _ => none) entries
  | k :: l :: ks, entries =>
    alter k (fun old => match old with
      | none => (define v (l :: ks) []).map (.table .dotted ·)
      | some (.table .dotted inner) => (define v (l :: ks) inner).map (.table .dotted ·)
      | some (.table .implied inner) =>
        if ks.isEmpty then none else (define v (l :: ks) inner).map (.table .implied ·)
      | some (.tables (.table origin inner :: others)) =>
        if ks.isEmpty then none
        else (define v (l :: ks) inner).map fun inner' => .tables (.table origin inner' :: others)
      | some _ => none) entries

/-- Changes the table that a header names, the latest one where the header is repeated. Tables on the
way may be new. -/
def atHeader (f : Entries → Option Entries) : List String → Entries → Option Entries
  | [], entries => f entries
  | k :: ks, entries =>
    alter k (fun old => match old with
      | none => (atHeader f ks []).map (.table .implied ·)
      | some (.table .inline _) => none
      | some (.table origin inner) => (atHeader f ks inner).map (.table origin ·)
      | some (.tables (.table origin inner :: others)) =>
        (atHeader f ks inner).map fun inner' => .tables (.table origin inner' :: others)
      | some _ => none) entries

/-- Opens the table `k` by a header. It may be implied already, never defined. -/
def openTable (k : String) : Entries → Option Entries :=
  alter k fun old => match old with
    | none => some (.table .header [])
    | some (.table .implied inner) => some (.table .header inner)
    | some _ => none

/-- Opens one more table under the repeated header `k`. -/
def openItem (k : String) : Entries → Option Entries :=
  alter k fun old => match old with
    | none => some (.tables [.table .header []])
    | some (.tables items) => some (.tables (.table .header [] :: items))
    | some _ => none

/-- The items of an array, also of one that is written as repeated tables. -/
def Value.items? : Value → Option (List Value)
  | .list items => some items
  | .tables items => some items.reverse
  | _ => none

def Value.text? : Value → Option String
  | .text s => some s
  | _ => none

def Value.flag? : Value → Option Bool
  | .flag b => some b
  | _ => none

/-- What stands under a key that may be absent. -/
def optional? {α : Type} (entries : Entries) (k : String) (f : Value → Option α) :
    Option (Option α) :=
  match find? k entries with
  | none => some none
  | some v => (f v).map some

/-- How a text that is not TOML is reported. -/
def failureText : String := "TOML parse error"

end BlockSketch.Toml
