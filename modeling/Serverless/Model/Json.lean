import Serverless.Library.Text
import Serverless.Model.Domain

/-!
# `json.dumps` and `json.loads`

The encoder and the decoder that the worker and the runner share, on texts as lists of
characters. Both follow the standard library: the encoder escapes everything outside
printable ASCII, and the decoder ends in a `JSONDecodeError`, in the `ValueError` of a numeral
that is too long, or in a `RecursionError`. A lone surrogate that is escaped in a text is kept.
How a float is printed and read is a parameter with the law that reading undoes printing.
-/
namespace Serverless.Model.Json

open Serverless.Library

/-! ## Encoding -/

/-- The numerals of the grammar that have a fraction or an exponent. -/
structure FloatToken (cs : List Char) where
  sign : List Char
  int : List Char
  frac : List Char
  exp : List Char
  eq : cs = sign ++ int ++ (frac ++ exp)
  sign_ok : sign = [] ∨ sign = ['-']
  int_ok : int = ['0'] ∨ ∃ d ds, int = d :: ds ∧ d ≠ '0' ∧ ∀ c ∈ int, c.isDigit = true
  frac_ok : frac = [] ∨ ∃ ds, ds ≠ [] ∧ frac = '.' :: ds ∧ ∀ c ∈ ds, c.isDigit = true
  exp_ok : exp = [] ∨ ∃ mark s ds, (mark = 'e' ∨ mark = 'E') ∧ (s = [] ∨ s = ['+'] ∨ s = ['-']) ∧
    ds ≠ [] ∧ exp = mark :: (s ++ ds) ∧ ∀ c ∈ ds, c.isDigit = true
  some_part : frac ++ exp ≠ []

/-- What the interpreter adds to the grammar: `float.__repr__`, `float(text)` with nothing for a
text whose value is too large for a finite float, and how many brackets the decoder can have
open before it meets the recursion limit, which are at least two. -/
structure Format where
  isFloat : ℚ → Prop
  repr : ℚ → List Char
  value : List Char → Option ℚ
  room : Nat
  two_le_room : 2 ≤ room
  token : ∀ q, isFloat q → Nonempty (FloatToken (repr q))
  value_repr : ∀ q, isFloat q → value (repr q) = some q

def escapeUnit (u : CodePoint) : List Char := '\\' :: 'u' :: Text.hexChars 4 u.val

/-- One character of a string, as `ensure_ascii` writes it. -/
def escapeChar (p : CodePoint) : List Char :=
  if p = '"' then ['\\', '"']
  else if p = '\\' then ['\\', '\\']
  else if p = '\n' then ['\\', 'n']
  else if p = '\r' then ['\\', 'r']
  else if p = '\t' then ['\\', 't']
  else if p = '\x0c' then ['\\', 'f']
  else if p = '\x08' then ['\\', 'b']
  else if 0x20 ≤ p.val ∧ p.val ≤ 0x7E then [Char.ofNat p.val]
  else p.units.flatMap escapeUnit

def quote (s : PyStr) : List Char := '"' :: (s.flatMap escapeChar ++ ['"'])

def intText (n : Int) : List Char :=
  (if n < 0 then ['-'] else []) ++ Nat.toDigits 10 n.natAbs

section Dumps

variable (F : Format) (pad : List Char)

/- `json.dumps(value)` when `pad` is one blank, and
`json.dumps(value, separators=(",", ":"))` when it is empty. -/
mutual

def dumps : JsonValue → List Char
  | .null => ['n', 'u', 'l', 'l']
  | .bool true => ['t', 'r', 'u', 'e']
  | .bool false => ['f', 'a', 'l', 's', 'e']
  | .int n => intText n
  | .float q => F.repr q
  | .nan => ['N', 'a', 'N']
  | .infinity false => ['I', 'n', 'f', 'i', 'n', 'i', 't', 'y']
  | .infinity true => ['-', 'I', 'n', 'f', 'i', 'n', 'i', 't', 'y']
  | .str s => quote s
  | .list [] => ['[', ']']
  | .list (v :: vs) => '[' :: (dumps v ++ dumpsItems vs)
  | .dict [] => ['{', '}']
  | .dict ((k, v) :: ps) => '{' :: (quote k ++ ':' :: (pad ++ (dumps v ++ dumpsPairs ps)))

/-- The items after the first one. -/
def dumpsItems : List JsonValue → List Char
  | [] => [']']
  | v :: vs => ',' :: (pad ++ (dumps v ++ dumpsItems vs))

def dumpsPairs : List (PyStr × JsonValue) → List Char
  | [] => ['}']
  | (k, v) :: ps => ',' :: (pad ++ (quote k ++ ':' :: (pad ++ (dumps v ++ dumpsPairs ps))))

end

end Dumps

/-! ## Decoding -/

/-- `sys.int_info.default_max_str_digits`. -/
def maxStrDigits : Nat := 4300

/-- What leaves `json.loads`: a `JSONDecodeError` with its `msg`, the `ValueError` of an integer
with too many digits, or the `RecursionError` of an object or an array. -/
inductive LoadError where
  | decode (msg : String)
  | tooManyDigits (count : Nat)
  | tooDeep (kind : String)

def isWs (c : Char) : Bool := c = ' ' ∨ c = '\t' ∨ c = '\n' ∨ c = '\r'

def skipWs (cs : List Char) : List Char := cs.dropWhile isWs

/-- What a backslash and one character stand for. -/
def simpleEscape (c : Char) : Option CodePoint :=
  if c = '"' ∨ c = '\\' ∨ c = '/' then some c
  else if c = 'b' then some 0x08
  else if c = 'f' then some 0x0C
  else if c = 'n' then some 0x0A
  else if c = 'r' then some 0x0D
  else if c = 't' then some 0x09
  else none

abbrev Scan (α : Type) := Except LoadError (α × List Char)

def Scan.cons (u : CodePoint) : Scan PyStr → Scan PyStr
  | .ok (us, rest) => .ok (u :: us, rest)
  | .error e => .error e

/-- `scanstring`, from behind the opening quote, before surrogate pairs are joined. -/
def scanUnits : List Char → Scan PyStr
  | [] => .error (.decode "Unterminated string starting at")
  | c :: cs =>
    if c = '"' then .ok ([], cs)
    else if c = '\\' then
      match cs with
      | [] => .error (.decode "Unterminated string starting at")
      | e :: cs =>
        if e = 'u' then
          match cs with
          | h₁ :: h₂ :: h₃ :: h₄ :: cs =>
            match Text.hexNumber 0 [h₁, h₂, h₃, h₄] with
            | some u => .cons (Fin.ofNat _ u) (scanUnits cs)
            | none => .error (.decode "Invalid \\uXXXX escape")
          | _ => .error (.decode "Invalid \\uXXXX escape")
        else match simpleEscape e with
          | some u => .cons u (scanUnits cs)
          | none => .error (.decode "Invalid \\escape")
    else if c.toNat < 0x20 then .error (.decode "Invalid control character at")
    else .cons c (scanUnits cs)

/-- No unit of the text itself is a surrogate, so that only escaped pairs are joined. -/
def scanString (cs : List Char) : Scan PyStr :=
  match scanUnits cs with
  | .ok (us, rest) => .ok (CodePoint.joinPairs us, rest)
  | .error e => .error e

def constants : List (List Char × JsonValue) :=
  [(['n', 'u', 'l', 'l'], .null), (['t', 'r', 'u', 'e'], .bool true),
    (['f', 'a', 'l', 's', 'e'], .bool false), (['N', 'a', 'N'], .nan),
    (['I', 'n', 'f', 'i', 'n', 'i', 't', 'y'], .infinity false),
    (['-', 'I', 'n', 'f', 'i', 'n', 'i', 't', 'y'], .infinity true)]

def scanConstant (cs : List Char) : Option (JsonValue × List Char) :=
  constants.findSome? fun (name, value) => (cs.dropPrefix? name).map fun rest => (value, rest)

def digits (cs : List Char) : List Char × List Char := cs.span Char.isDigit

def scanSign : List Char → List Char × List Char
  | [] => ([], [])
  | c :: cs => if c = '-' then (['-'], cs) else ([], c :: cs)

/-- `0` or a run of digits that starts with another one. -/
def scanInt : List Char → Option (List Char × List Char)
  | [] => none
  | c :: cs =>
    if c = '0' then some (['0'], cs)
    else if c.isDigit then some (digits (c :: cs))
    else none

/-- A point and at least one digit, if they are there. -/
def scanFrac : List Char → List Char × List Char
  | [] => ([], [])
  | c :: cs =>
    if c = '.' ∧ (digits cs).1 ≠ [] then ('.' :: (digits cs).1, (digits cs).2) else ([], c :: cs)

def scanExpSign : List Char → List Char × List Char
  | [] => ([], [])
  | c :: cs => if c = '+' ∨ c = '-' then ([c], cs) else ([], c :: cs)

/-- The mark of an exponent, a sign or none, and at least one digit, if they are there. -/
def scanExp : List Char → List Char × List Char
  | [] => ([], [])
  | c :: cs =>
    let (sign, rest) := scanExpSign cs
    if (c = 'e' ∨ c = 'E') ∧ (digits rest).1 ≠ [] then
      (c :: (sign ++ (digits rest).1), (digits rest).2)
    else ([], c :: cs)

def intValue (sign ds : List Char) : Int :=
  if sign = [] then Nat.ofDigitChars 10 ds 0 else -Nat.ofDigitChars 10 ds 0

/-- `int(text)` of a sign and digits. -/
def intOf (sign ds : List Char) : Except LoadError JsonValue :=
  if ds.length ≤ maxStrDigits then .ok (.int (intValue sign ds))
  else .error (.tooManyDigits ds.length)

/-- `float(text)` of a text with that sign. -/
def floatOf (F : Format) (sign text : List Char) : JsonValue :=
  match F.value text with
  | some q => .float q
  | none => .infinity (sign = ['-'])

def scanNumber (F : Format) (cs : List Char) : Scan JsonValue :=
  let (sign, rest) := scanSign cs
  match scanInt rest with
  | none => .error (.decode "Expecting value")
  | some (int, rest) =>
    let (frac, rest) := scanFrac rest
    let (exp, rest) := scanExp rest
    if frac ++ exp = [] then (intOf sign int).map fun v => (v, rest)
    else .ok (floatOf F sign (sign ++ int ++ (frac ++ exp)), rest)

/-- `dict(pairs)`: a repeated key keeps its place and takes the last value. -/
def dictOf (pairs : List (PyStr × JsonValue)) : List (PyStr × JsonValue) :=
  pairs.foldl
    (fun d p =>
      if p.1 ∈ d.map (·.1) then d.map fun q => if q.1 = p.1 then p else q else d ++ [p])
    []

section Loads

variable (F : Format)

/- One value, the items of a list and the pairs of an object, with the number of brackets that
can still be opened. The bound on the recursion, which comes second, is never reached by
`loads`. -/
mutual

def scanOnce : Nat → Nat → List Char → Scan JsonValue
  | _, 0, _ => .error (.decode "Expecting value")
  | _, _ + 1, [] => .error (.decode "Expecting value")
  | room, n + 1, c :: cs =>
    if c = '"' then
      match scanString cs with
      | .ok (s, rest) => .ok (.str s, rest)
      | .error e => .error e
    else if c = '{' then
      if room = 0 then .error (.tooDeep "object")
      else if (skipWs cs).head? = some '}' then .ok (.dict [], (skipWs cs).tail)
      else match scanPairs (room - 1) n (skipWs cs) with
        | .ok (pairs, rest) => .ok (.dict (dictOf pairs), rest)
        | .error e => .error e
    else if c = '[' then
      if room = 0 then .error (.tooDeep "array")
      else if (skipWs cs).head? = some ']' then .ok (.list [], (skipWs cs).tail)
      else match scanItems (room - 1) n (skipWs cs) with
        | .ok (items, rest) => .ok (.list items, rest)
        | .error e => .error e
    else match scanConstant (c :: cs) with
      | some r => .ok r
      | none => scanNumber F (c :: cs)

def scanItems : Nat → Nat → List Char → Scan (List JsonValue)
  | _, 0, _ => .error (.decode "Expecting value")
  | room, n + 1, cs =>
    match scanOnce room n cs with
    | .error e => .error e
    | .ok (v, rest) =>
      if (skipWs rest).head? = some ']' then .ok ([v], (skipWs rest).tail)
      else if (skipWs rest).head? = some ',' then
        match scanItems room n (skipWs (skipWs rest).tail) with
        | .ok (vs, rest) => .ok (v :: vs, rest)
        | .error e => .error e
      else .error (.decode "Expecting ',' delimiter")

def scanPairs : Nat → Nat → List Char → Scan (List (PyStr × JsonValue))
  | _, 0, _ => .error (.decode "Expecting value")
  | room, n + 1, cs =>
    if cs.head? ≠ some '"' then
      .error (.decode "Expecting property name enclosed in double quotes")
    else match scanString cs.tail with
      | .error e => .error e
      | .ok (k, rest) =>
        if (skipWs rest).head? ≠ some ':' then .error (.decode "Expecting ':' delimiter")
        else match scanOnce room n (skipWs (skipWs rest).tail) with
          | .error e => .error e
          | .ok (v, rest) =>
            if (skipWs rest).head? = some '}' then .ok ([(k, v)], (skipWs rest).tail)
            else if (skipWs rest).head? = some ',' then
              match scanPairs room n (skipWs (skipWs rest).tail) with
              | .ok (ps, rest) => .ok ((k, v) :: ps, rest)
              | .error e => .error e
            else .error (.decode "Expecting ',' delimiter")

end

/-- `json.loads(text)`. -/
def loads (text : List Char) : Except LoadError JsonValue :=
  if text.head? = some (Char.ofNat 0xFEFF) then
    .error (.decode "Unexpected UTF-8 BOM (decode using utf-8-sig)")
  else match scanOnce F F.room (2 * text.length + 1) (skipWs text) with
    | .error e => .error e
    | .ok (v, rest) => if skipWs rest = [] then .ok v else .error (.decode "Extra data")

end Loads

end Serverless.Model.Json
