import DocSig.Toml.Basic

/-!
Values without quotes or brackets: truth values, whole numbers, other numbers, dates and times.

`Value.ofWord?` takes the whole spelling of such a value. A whole number has to fit into 128 bits,
with a sign or without; a date has to be in the calendar, and a minute may have 61 seconds.
-/

set_option autoImplicit false

namespace DocSig.Toml

def isDigitRun (isDigit : Char → Bool) : Text → Bool
  | [] => false
  | [c] => isDigit c
  | c :: '_' :: s => isDigit c && isDigitRun isDigit s
  | c :: s => isDigit c && isDigitRun isDigit s

/-- Decimal digits without a needless zero in front. -/
def isWhole (s : Text) : Bool := s == ['0'] || (isDigitRun Char.isDigit s && s.head? != some '0')

def digitValue (c : Char) : Nat :=
  if c.isDigit then c.toNat - '0'.toNat else c.toLower.toNat - 'a'.toNat + 10

def isDigitBelow (base : Nat) (c : Char) : Bool := c.isAlphanum && digitValue c < base

/-- The number that digits spell; underscores count for nothing. -/
def numberOf (base : Nat) (digits : Text) : Nat :=
  (digits.filter (· != '_')).foldl (fun n c => n * base + digitValue c) 0

def signed : Text → Bool × Text
  | '-' :: s => (true, s)
  | '+' :: s => (false, s)
  | s => (false, s)

/-- The number of a text in a base, which no sign may precede. -/
def unsigned? (base : Nat) (s : Text) : Option Int :=
  if isDigitRun (isDigitBelow base) s then some (numberOf base s) else none

def integer? : Text → Option Int
  | '0' :: 'x' :: s => unsigned? 16 s
  | '0' :: 'o' :: s => unsigned? 8 s
  | '0' :: 'b' :: s => unsigned? 2 s
  | s =>
    let (negative, digits) := signed s
    if isWhole digits then
      let n : Int := numberOf 10 digits
      some (if negative then -n else n)
    else none

def leastInteger : Int := -0x80000000000000000000000000000000

def greatestInteger : Int := 0xFFFFFFFFFFFFFFFFFFFFFFFFFFFFFFFF

/-- A number that fits into 128 bits, with a sign or without. -/
def fits (n : Int) : Bool := leastInteger ≤ n && n ≤ greatestInteger

/-- A text in two parts at the first character that fits; without one there is no second part. -/
def splitAt (isEnd : Char → Bool) (s : Text) : Text × Option Text :=
  match s.dropWhile (!isEnd ·) with
  | [] => (s, none)
  | _ :: rest => (s.takeWhile (!isEnd ·), some rest)

/-- The spelling of a number with a fraction, an exponent or both, or of one that is not finite. -/
def isFloat (s : Text) : Bool :=
  let (_, magnitude) := signed s
  let (mantissa, exponent) := splitAt (fun c => c == 'e' || c == 'E') magnitude
  let (whole, fraction) := splitAt (· == '.') mantissa
  magnitude == "inf".toList || magnitude == "nan".toList ||
    ((exponent.isSome || fraction.isSome) && isWhole whole &&
      fraction.all (isDigitRun Char.isDigit) &&
      exponent.all fun digits => isDigitRun Char.isDigit (signed digits).2)

def daysIn (year month : Nat) : Nat :=
  if month == 2 then
    if year % 4 == 0 && (year % 100 != 0 || year % 400 == 0) then 29 else 28
  else if [4, 6, 9, 11].contains month then 30 else 31

def digits? (count : Nat) (s : Text) : Option (Nat × Text) :=
  let front := s.take count
  if front.length = count ∧ front.all Char.isDigit then some (numberOf 10 front, s.drop count)
  else none

def afterDate? (s : Text) : Option Text := do
  let (year, s) ← digits? 4 s
  let (month, s) ← digits? 2 (← Text.after? ['-'] s)
  let (day, s) ← digits? 2 (← Text.after? ['-'] s)
  if 1 ≤ month ∧ month ≤ 12 ∧ 1 ≤ day ∧ day ≤ daysIn year month then some s else none

def afterMinutes? (s : Text) : Option Text := do
  let (hour, s) ← digits? 2 s
  let (minute, s) ← digits? 2 (← Text.after? [':'] s)
  if hour ≤ 23 ∧ minute ≤ 59 then some s else none

def afterFraction? : Text → Option Text
  | '.' :: s => if s.head?.any Char.isDigit then some (s.dropWhile Char.isDigit) else none
  | s => some s

/-- The text behind a time of day; its seconds may be left out. -/
def afterTime? (s : Text) : Option Text := do
  match ← afterMinutes? s with
  | ':' :: s =>
    let (second, s) ← digits? 2 s
    if second ≤ 60 then afterFraction? s else none
  | s => some s

def isOffset : Text → Bool
  | [] | ['Z'] | ['z'] => true
  | '+' :: s | '-' :: s => afterMinutes? s == some []
  | _ => false

def isMoment (s : Text) : Bool :=
  match afterDate? s with
  | some [] => true
  | some (c :: s) => (c == 'T' || c == 't' || c == ' ') && (afterTime? s).any isOffset
  | none => afterTime? s == some []

def Value.ofWord? (word : Text) : Option Value :=
  if word == "true".toList then some (.boolean true)
  else if word == "false".toList then some (.boolean false)
  else
    match integer? word with
    | some n => if fits n then some (.integer n) else none
    | none =>
      if isFloat word then some (.float word)
      else if isMoment word then some (.moment word)
      else none

end DocSig.Toml
