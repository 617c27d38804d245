import Spreadsheet.Text.Decimal
import Spreadsheet.Text.Utf8

/-! # Lexemes of TOML

Strings, numbers, booleans and times, each read from the start of a list of characters. The values
of floats and times are checked but not kept: no setting has such a value.
-/
namespace Spreadsheet.Toml

inductive Scalar where
  | text (t : Text)
  | integer (i : Int64)
  | boolean (b : Bool)
  | float
  | moment
  deriving DecidableEq, Repr

def isBlank (c : Char) : Bool := c = ' ' || c = '\t'

def isNewline (c : Char) : Bool := c = '\n' || c = '\r'

def isGap (c : Char) : Bool := isBlank c || isNewline c

/-- Tab and newline are the only control characters, and a carriage return stands only before a
newline. -/
def isClean : List Char → Bool
  | [] => true
  | '\r' :: '\n' :: r => isClean r
  | c :: r => (c = '\t' || c = '\n' || (0x20 ≤ c.toNat && c.toNat ≠ 0x7F)) && isClean r

/-! ## Strings -/

def hexValue? (c : Char) : Option Nat :=
  if c.isDigit then some (c.toNat - 0x30)
  else if 'a' ≤ c ∧ c ≤ 'f' then some (c.toNat - 0x57)
  else if 'A' ≤ c ∧ c ≤ 'F' then some (c.toNat - 0x37)
  else none

def charOfHex (digits : List Char) : Option Char := do
  let values ← digits.mapM hexValue?
  Text.scalar? (values.foldl (fun n d => 16 * n + d) 0)

def escaped? : Char → Option Char
  | 'b' => some '\x08'
  | 't' => some '\t'
  | 'n' => some '\n'
  | 'f' => some '\x0c'
  | 'r' => some '\r'
  | 'e' => some '\x1b'
  | '"' => some '"'
  | '\\' => some '\\'
  | _ => none

abbrev Lexed := Option (List Char × List Char)

def Lexed.cons (c : Char) (rest : Lexed) : Lexed := rest.map fun (s, r) => (c :: s, r)

def basic : List Char → Lexed
  | [] => none
  | '"' :: r => some ([], r)
  | '\\' :: 'x' :: a :: b :: r => do Lexed.cons (← charOfHex [a, b]) (basic r)
  | '\\' :: 'u' :: a :: b :: c :: d :: r => do Lexed.cons (← charOfHex [a, b, c, d]) (basic r)
  | '\\' :: 'U' :: a :: b :: c :: d :: e :: f :: g :: h :: r => do
    Lexed.cons (← charOfHex [a, b, c, d, e, f, g, h]) (basic r)
  | '\\' :: e :: r => do Lexed.cons (← escaped? e) (basic r)
  | c :: r => if isNewline c || c = '\\' then none else Lexed.cons c (basic r)

def literal : List Char → Lexed
  | [] => none
  | c :: r =>
    if c = '\'' then some ([], r)
    else if isNewline c then none
    else Lexed.cons c (literal r)

/-- Three quotes in a row end a string of several lines. Up to `spare` more may stand before them
and are still part of the string; a longer row is an error, and a shorter one is part of the
string. -/
def closing (quote : Char) (spare : Nat) (s : List Char) : Option Lexed :=
  let n := (s.takeWhile (· == quote)).length
  if n < 3 then none
  else if n ≤ spare + 3 then some (some (List.replicate (n - 3) quote, s.drop n))
  else some none

/-- What stands right before a place in a basic string of several lines. -/
inductive Before where
  | text
  /-- A backslash at the end of a line, and nothing but blanks and newlines since. -/
  | lineEnd
  /-- An escaped backslash. -/
  | backslash

/-- The rest of a basic string of several lines. A backslash at the end of a line skips all blanks
and newlines after it. Two spare quotes may stand before the closing ones, three after an escaped
backslash. -/
def basicLines (before : Before) : List Char → Lexed
  | [] => none
  | '\\' :: 'x' :: a :: b :: r => do Lexed.cons (← charOfHex [a, b]) (basicLines .text r)
  | '\\' :: 'u' :: a :: b :: c :: d :: r => do
    Lexed.cons (← charOfHex [a, b, c, d]) (basicLines .text r)
  | '\\' :: 'U' :: a :: b :: c :: d :: e :: f :: g :: h :: r => do
    Lexed.cons (← charOfHex [a, b, c, d, e, f, g, h]) (basicLines .text r)
  | '\\' :: '\\' :: r => Lexed.cons '\\' (basicLines .backslash r)
  | '\\' :: e :: r =>
    if isGap e then
      if ((e :: r).takeWhile isGap).contains '\n' then basicLines .lineEnd r else none
    else do Lexed.cons (← escaped? e) (basicLines .text r)
  | c :: r =>
    match before, isGap c with
    | .lineEnd, true => basicLines .lineEnd r
    | before, _ =>
      if c = '\\' then none
      else
        let spare := match before with
          | .backslash => 3
          | _ => 2
        match closing '"' spare (c :: r) with
        | some result => result
        | none => Lexed.cons c (basicLines .text r)

def literalLines : List Char → Lexed
  | [] => none
  | c :: r =>
    match closing '\'' 2 (c :: r) with
    | some result => result
    | none => Lexed.cons c (literalLines r)

/-- A newline right after the opening quotes is not part of the string. -/
def skipFirstNewline : List Char → List Char
  | '\n' :: r => r
  | '\r' :: '\n' :: r => r
  | s => s

/-- A string, if one starts here; the inner option says whether it ends. -/
def quoted? : List Char → Option Lexed
  | '"' :: '"' :: '"' :: r => some (basicLines .text (skipFirstNewline r))
  | '"' :: r => some (basic r)
  | '\'' :: '\'' :: '\'' :: r => some (literalLines (skipFirstNewline r))
  | '\'' :: r => some (literal r)
  | _ => none

/-! ## Numbers -/

/-- Digits after a digit; single underscores may stand between digits and are dropped. -/
def groupedTail (p : Char → Bool) : List Char → Option (List Char)
  | [] => some []
  | '_' :: c :: r => if p c then (groupedTail p r).map (c :: ·) else none
  | c :: r => if p c then (groupedTail p r).map (c :: ·) else none

def grouped (p : Char → Bool) : List Char → Option (List Char)
  | [] => none
  | c :: r => if p c then (groupedTail p r).map (c :: ·) else none

/-- A decimal numeral without superfluous zeros. -/
def wholePart (s : List Char) : Option (List Char) := do
  let digits ← grouped Char.isDigit s
  if 1 < digits.length ∧ digits.head? = some '0' then none else some digits

def numeralValue (radix : Nat) (digits : List Char) : Nat :=
  digits.foldl (fun n d => radix * n + (hexValue? d).getD 0) 0

def radixInteger (radix : Nat) (s : List Char) : Option Int64 := do
  let digits ← grouped (fun c => (hexValue? c).any (· < radix)) s
  (Decimal.ofMagnitude false (numeralValue radix digits)).toOption

def decimalInteger (negative : Bool) (s : List Char) : Option Int64 := do
  (Decimal.ofMagnitude negative (numeralValue 10 (← wholePart s))).toOption

def integer? : List Char → Option Int64
  | '0' :: 'x' :: r => radixInteger 16 r
  | '0' :: 'o' :: r => radixInteger 8 r
  | '0' :: 'b' :: r => radixInteger 2 r
  | '-' :: r => decimalInteger true r
  | '+' :: r => decimalInteger false r
  | s => decimalInteger false s

def unsigned : List Char → List Char
  | '+' :: r => r
  | '-' :: r => r
  | s => s

/-- Whether `digits · 10 ^ exponent` rounds to a finite number of 64 bits. -/
def isFinite (digits : Nat) (exponent : Int) : Bool :=
  let limit := Nat.pow 2 1024 - Nat.pow 2 970
  let size : Int := (Nat.toDigits 10 digits).length + exponent
  if digits = 0 ∨ size < 300 then true
  else if 320 < size then false
  else if 0 ≤ exponent then digits * Nat.pow 10 exponent.toNat < limit
  else digits < limit * Nat.pow 10 (-exponent).toNat

/-- The value of an exponent. Digits after those that reach ten thousand do not count. -/
def exponentValue (digits : List Char) : Nat :=
  digits.foldl (fun n d => if n < 10000 then 10 * n + (hexValue? d).getD 0 else n) 0

/-- A fraction, an exponent, or both, must follow the whole part. -/
def isFloat (s : List Char) : Bool :=
  let s := unsigned s
  if s = ['i', 'n', 'f'] || s = ['n', 'a', 'n'] then true
  else
    let isDigitOrBar (c : Char) : Bool := c.isDigit || c = '_'
    let whole := s.takeWhile isDigitOrBar
    let s := s.dropWhile isDigitOrBar
    let (fraction, s) := match s with
      | '.' :: r => (some (r.takeWhile isDigitOrBar), r.dropWhile isDigitOrBar)
      | s => (none, s)
    let exponent := match s with
      | 'e' :: r => some r
      | 'E' :: r => some r
      | _ => none
    if exponent.isNone && !(s.isEmpty && fraction.isSome) then false
    else
      let checked : Option Bool := do
        let whole ← wholePart whole
        let fraction ← match fraction with
          | some f => grouped Char.isDigit f
          | none => some []
        let power : Int ← match exponent with
          | none => some 0
          | some e => do
            let n : Int := exponentValue (← grouped Char.isDigit (unsigned e))
            some (if e.head? = some '-' then -n else n)
        return isFinite (numeralValue 10 (whole ++ fraction)) (power - fraction.length)
      checked.getD false

/-! ## Times -/

def digits? (count : Nat) (s : List Char) : Option (Nat × List Char) :=
  let ds := s.take count
  if ds.length = count ∧ ds.all Char.isDigit then some (numeralValue 10 ds, s.drop count) else none

def isLeap (year : Nat) : Bool := year % 4 = 0 && (year % 100 ≠ 0 || year % 400 = 0)

def daysIn (year month : Nat) : Nat :=
  if month = 2 then (if isLeap year then 29 else 28)
  else if month = 4 || month = 6 || month = 9 || month = 11 then 30
  else 31

def expect (c : Char) : List Char → Option (List Char)
  | [] => none
  | d :: r => if d = c then some r else none

def date? (s : List Char) : Option (List Char) := do
  let (year, s) ← digits? 4 s
  let (month, s) ← digits? 2 (← expect '-' s)
  let (day, s) ← digits? 2 (← expect '-' s)
  if 1 ≤ month ∧ month ≤ 12 ∧ 1 ≤ day ∧ day ≤ daysIn year month then some s else none

/-- Hours and minutes, with seconds or not, and those with a fraction or not. -/
def time? (s : List Char) : Option (List Char) := do
  let (hour, s) ← digits? 2 s
  let (minute, s) ← digits? 2 (← expect ':' s)
  if 24 ≤ hour ∨ 60 ≤ minute then none
  match s with
  | ':' :: s =>
    let (second, s) ← digits? 2 s
    if 60 ≤ second then none
    match s with
    | '.' :: r => if (r.takeWhile Char.isDigit).isEmpty then none else some (r.dropWhile Char.isDigit)
    | s => some s
  | s => some s

def zone? : List Char → Option (List Char)
  | 'Z' :: r => some r
  | c :: r =>
    if c = '+' || c = '-' then do
      let (hour, r) ← digits? 2 r
      let (minute, r) ← digits? 2 (← expect ':' r)
      if 24 < hour ∨ 60 < minute then none else some r
    else none
  | [] => none

/-- A date, a time, or both with a zone or without. -/
def isMoment (s : List Char) : Bool :=
  let s := s.map fun c => if c = 't' || c = ' ' then 'T' else if c = 'z' then 'Z' else c
  match date? s with
  | none => time? s == some []
  | some [] => true
  | some ('T' :: r) =>
    match time? r with
    | none => false
    | some [] => true
    | some r => zone? r == some []
  | some _ => false

/-! ## Values without brackets and quotes -/

def isTokenChar (c : Char) : Bool :=
  c.isAlphanum || c = '_' || c = '+' || c = '-' || c = '.' || c = ':'

def isMomentChar (c : Char) : Bool :=
  c.isDigit || c = '-' || c = ':' || c = 'T' || c = 't' || c = ' ' || c = '.' || c = 'Z' || c = 'z'
    || c = '+'

/-- A time starts with digits and a dash or colon. -/
def startsMoment (s : List Char) : Bool :=
  let r := s.dropWhile Char.isDigit
  r.length < s.length && (r.head? = some '-' || r.head? = some ':')

def trimRight (s : List Char) : List Char := (s.reverse.dropWhile isBlank).reverse

def ofWord (s : List Char) : Option Scalar :=
  if s = ['t', 'r', 'u', 'e'] then some (.boolean true)
  else if s = ['f', 'a', 'l', 's', 'e'] then some (.boolean false)
  else
    match integer? s with
    | some i => some (.integer i)
    | none => if isFloat s then some .float else none

def word? (s : List Char) : Option (Scalar × List Char) :=
  if startsMoment s then
    if isMoment (trimRight (s.takeWhile isMomentChar)) then some (.moment, s.dropWhile isMomentChar)
    else none
  else (ofWord (s.takeWhile isTokenChar)).map (·, s.dropWhile isTokenChar)

end Spreadsheet.Toml
