import EditableText.Text

namespace EditableText.Toml.Number

def digit? (base : Nat) (c : Char) : Option Nat :=
  let value :=
    if c.isDigit then c.toNat - '0'.toNat
    else if 'a' ≤ c ∧ c ≤ 'f' then c.toNat - 'a'.toNat + 10
    else if 'A' ≤ c ∧ c ≤ 'F' then c.toNat - 'A'.toNat + 10
    else base
  if value < base then some value else none

def digitsFrom? (base high : Nat) : Text → Option Nat
  | [] => some high
  | '_' :: c :: rest => do digitsFrom? base (high * base + (← digit? base c)) rest
  | c :: rest => do digitsFrom? base (high * base + (← digit? base c)) rest

def digits? (base : Nat) : Text → Option Nat
  | [] => none
  | c :: rest => do digitsFrom? base (← digit? base c) rest

def decimal? : Text → Option Nat
  | '0' :: _ :: _ => none
  | t => digits? 10 t

def sign : Text → Bool × Text
  | '-' :: rest => (true, rest)
  | '+' :: rest => (false, rest)
  | t => (false, t)

def unbounded? : Text → Option Int
  | '0' :: 'x' :: rest => Int.ofNat <$> digits? 16 rest
  | '0' :: 'o' :: rest => Int.ofNat <$> digits? 8 rest
  | '0' :: 'b' :: rest => Int.ofNat <$> digits? 2 rest
  | t =>
    let (isNegative, rest) := sign t
    (fun n => if isNegative then -Int.ofNat n else Int.ofNat n) <$> decimal? rest

def integer? (t : Text) : Option Int := do
  let n ← unbounded? t
  if -(1 <<< 63 : Nat) ≤ n ∧ n < (1 <<< 63 : Nat) then some n else none

def isDigitOrBar (c : Char) : Bool := c.isDigit || c == '_'

structure Decimal where
  digits : Nat
  exponent : Int
  deriving Repr

/-- The least number that is nearer to infinity than to the greatest double. -/
def overflow : Nat := 1 <<< 1024 - 1 <<< 970

def Decimal.isFinite (d : Decimal) : Bool :=
  let places := (Nat.toDigits 10 d.digits).length + d.exponent
  if d.digits = 0 ∨ places < 300 then true
  else if 400 < places then false
  else if 0 ≤ d.exponent then d.digits * Nat.pow 10 d.exponent.toNat < overflow
  else d.digits < overflow * Nat.pow 10 (-d.exponent).toNat

def exponent? : Text → Option Int
  | c :: rest =>
    if c = 'e' ∨ c = 'E' then
      let (isNegative, rest) := sign rest
      (fun n => if isNegative then -Int.ofNat n else Int.ofNat n) <$> digits? 10 rest
    else none
  | [] => none

def unsigned? (t : Text) : Option Decimal := do
  let whole ← decimal? (t.takeWhile isDigitOrBar)
  match t.dropWhile isDigitOrBar with
  | '.' :: rest =>
    let places := rest.takeWhile isDigitOrBar
    let fraction ← digits? 10 places
    let count := places.countP Char.isDigit
    let exponent ← match rest.dropWhile isDigitOrBar with
      | [] => some 0
      | rest => exponent? rest
    return ⟨whole * Nat.pow 10 count + fraction, exponent - count⟩
  | rest => return ⟨whole, ← exponent? rest⟩

/-- A float above the greatest double is none; below the least one it is. -/
def isFloat (t : Text) : Bool :=
  let (isNegative, rest) := sign t
  if rest == ['i', 'n', 'f'] || rest == ['n', 'a', 'n'] then true
  else
    match unsigned? rest with
    | some d => isNegative || d.isFinite
    | none => false

end EditableText.Toml.Number
