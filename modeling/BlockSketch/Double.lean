namespace BlockSketch

/-- A double that is no number: a sign and a payload of 52 bits, not all of them zero. -/
structure NotNumber where
  negative : Bool
  payload : Nat
  pos : 0 < payload
  lt : payload < Nat.pow 2 52
  deriving Repr

namespace NotNumber

/-- The one without a message: only the first bit of the payload is set. -/
def quiet (negative : Bool) : NotNumber := ⟨negative, Nat.pow 2 51, by decide, by decide⟩

/-- What arithmetic makes of an operand that is no number: the first bit of the payload is set. -/
def quieted (n : NotNumber) : NotNumber :=
  if h : n.payload < Nat.pow 2 51 then
    have hlt : n.payload + Nat.pow 2 51 < Nat.pow 2 52 :=
      Nat.lt_of_lt_of_le (Nat.add_lt_add_right h (Nat.pow 2 51)) (by decide)
    ⟨n.negative, n.payload + Nat.pow 2 51, Nat.add_pos_left n.pos _, hlt⟩
  else n

end NotNumber

/-- A double with all its bits. A `Float` does not tell apart those that are no numbers. -/
inductive Double where
  | number (x : Float) (h : x.isNaN = false)
  | notNumber (n : NotNumber)
  deriving Repr

namespace Double

def ofSigned (x : Float) (negative : Bool) : Double :=
  if h : x.isNaN = false then .number x h else .notNumber (.quiet negative)

def ofFloat (x : Float) : Double := ofSigned x false

def value : Double → Float
  | .number x _ => x
  | .notNumber _ => 0.0 / 0.0

/-- A sign, eleven bits of scale, and 52 bits of fraction or payload. -/
def bits : Double → Nat
  | .number x _ => x.toBits.toNat
  | .notNumber n => (if n.negative then Nat.pow 2 63 else 0) + 2047 * Nat.pow 2 52 + n.payload

/-- The place in the total order of doubles: the negative ones by falling bits, then the positive ones by
rising bits. -/
def totalRank (d : Double) : Nat :=
  if d.bits < Nat.pow 2 63 then Nat.pow 2 63 + d.bits else Nat.pow 2 64 - 1 - d.bits

end Double

end BlockSketch
