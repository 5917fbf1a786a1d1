import MemStack.Util.Dict

/-!
This module contains JSON as Python writes and reads it. Floating point numbers are a parameter that
comes with their shortest text. Strings have no lone surrogates.
-/

namespace JsonText

def isNumberChar (c : Char) : Bool :=
  c.isDigit || c = '-' || c = '+' || c = '.' || c = 'e' || c = 'E'

def isWhole (ds : List Char) : Bool :=
  ds ≠ [] && ds.all Char.isDigit && (ds = ['0'] || ds.head? ≠ some '0')

def dropSign (signs : List Char) : List Char → List Char
  | [] => []
  | c :: cs => if c ∈ signs then cs else c :: cs

def isExponent : List Char → Bool
  | [] => false
  | c :: cs =>
    let ds := dropSign ['-', '+'] cs
    (c = 'e' || c = 'E') && ds ≠ [] && ds.all Char.isDigit

def isFloatText (cs : List Char) : Bool :=
  let cs := dropSign ['-'] cs
  isWhole (cs.takeWhile Char.isDigit) &&
  match cs.dropWhile Char.isDigit with
  | '.' :: cs =>
    let rest := cs.dropWhile Char.isDigit
    cs.takeWhile Char.isDigit ≠ [] && (rest = [] || isExponent rest)
  | cs => isExponent cs

def constants : List String :=
  ["NaN", "Infinity", "-Infinity"]

end JsonText

-- The doubles of Python: reading the text that `repr` gives for a number gives the number back.
class PyFloat (F : Type) where
  text : F → List Char
  ofText : List Char → F
  ofText_text : ∀ x, ofText (text x) = x
  isZero : F → Bool
  wellFormed : ∀ x, (∃ s ∈ JsonText.constants, text x = s.toList) ∨ JsonText.isFloatText (text x)

inductive Json (F : Type) where
  | null
  | bool (b : Bool)
  | int (n : Int)
  | float (x : F)
  | str (s : String)
  | list (items : List (Json F))
  | dict (entries : List (String × Json F))

namespace Json

open JsonText

variable {F : Type}

section Values

def asStr : Json F → Option String
  | .str s => some s
  | _ => none

def isNull : Json F → Bool
  | .null => true
  | _ => false

-- The value of a key of a dictionary, `entries.get(key)`.
def get (entries : List (String × Json F)) (key : String) : Option (Json F) :=
  (entries.find? (·.1 = key)).map Prod.snd

variable [PyFloat F]

def truthy : Json F → Bool
  | .null => false
  | .bool b => b
  | .int n => n ≠ 0
  | .float x => !PyFloat.isZero x
  | .str s => s ≠ ""
  | .list items => !items.isEmpty
  | .dict entries => !entries.isEmpty

end Values

section Strings

def hexChar (n : Nat) : Char :=
  n.digitChar

def hexText (n : Nat) : List Char :=
  ['\\', 'u', hexChar (n / 4096 % 16), hexChar (n / 256 % 16), hexChar (n / 16 % 16), hexChar (n % 16)]

def escape (ascii : Bool) (c : Char) : List Char :=
  if c = '"' then ['\\', '"']
  else if c = '\\' then ['\\', '\\']
  else if c = '\n' then ['\\', 'n']
  else if c = '\r' then ['\\', 'r']
  else if c = '\t' then ['\\', 't']
  else if c.toNat = 0x8 then ['\\', 'b']
  else if c.toNat = 0xC then ['\\', 'f']
  else if c.toNat < 0x20 then hexText c.toNat
  else if ascii && 0x7E < c.toNat then
    if c.toNat < 0x10000 then hexText c.toNat
    else
      let n := c.toNat - 0x10000
      hexText (0xD800 + n / 1024) ++ hexText (0xDC00 + n % 1024)
  else [c]

def quote (ascii : Bool) (s : String) : List Char :=
  '"' :: (s.toList.flatMap (escape ascii) ++ ['"'])

def hexDigit (c : Char) : Option Nat :=
  if '0' ≤ c ∧ c ≤ '9' then some (c.toNat - 0x30)
  else if 'a' ≤ c ∧ c ≤ 'f' then some (c.toNat - 0x57)
  else if 'A' ≤ c ∧ c ≤ 'F' then some (c.toNat - 0x37)
  else none

def readHex : List Char → Option (Nat × List Char)
  | a :: b :: c :: d :: rest => do
    let a ← hexDigit a
    let b ← hexDigit b
    let c ← hexDigit c
    let d ← hexDigit d
    return (((a * 16 + b) * 16 + c) * 16 + d, rest)
  | _ => none

def readLowSurrogate (high : Nat) : List Char → Option (Char × List Char)
  | '\\' :: 'u' :: rest => do
    let (low, rest) ← readHex rest
    if 0xDC00 ≤ low ∧ low ≤ 0xDFFF then
      return (Char.ofNat (0x10000 + (high - 0xD800) * 1024 + (low - 0xDC00)), rest)
    else
      none
  | _ => none

def readUnicode (cs : List Char) : Option (Char × List Char) := do
  let (n, rest) ← readHex cs
  if 0xD800 ≤ n ∧ n ≤ 0xDBFF then
    readLowSurrogate n rest
  else if 0xDC00 ≤ n ∧ n ≤ 0xDFFF then
    none
  else
    return (Char.ofNat n, rest)

def unescape : Char → Option Char
  | '"' => some '"'
  | '\\' => some '\\'
  | '/' => some '/'
  | 'b' => some (Char.ofNat 0x8)
  | 'f' => some (Char.ofNat 0xC)
  | 'n' => some '\n'
  | 'r' => some '\r'
  | 't' => some '\t'
  | _ => none

def readEscape : List Char → Option (Char × List Char)
  | [] => none
  | c :: rest => if c = 'u' then readUnicode rest else (unescape c).map fun c => (c, rest)

def readChar : List Char → Option (Char × List Char)
  | [] => none
  | c :: rest =>
    if c = '\\' then readEscape rest
    else if c.toNat < 0x20 then none
    else some (c, rest)

def readChars : Nat → List Char → Option (List Char × List Char)
  | 0, _ => none
  | fuel + 1, cs =>
    if cs.head? = some '"' then
      some ([], cs.tail)
    else do
      let (c, rest) ← readChar cs
      let (cs, rest) ← readChars fuel rest
      return (c :: cs, rest)

def readString (cs : List Char) : Option (String × List Char) :=
  (readChars cs.length cs).map fun r => (String.ofList r.1, r.2)

end Strings

section Print

variable [PyFloat F]

def intText : Int → List Char
  | .ofNat n => Nat.toDigits 10 n
  | .negSucc n => '-' :: Nat.toDigits 10 (n + 1)

mutual

def print (ascii : Bool) : Json F → List Char
  | .null => ['n', 'u', 'l', 'l']
  | .bool true => ['t', 'r', 'u', 'e']
  | .bool false => ['f', 'a', 'l', 's', 'e']
  | .int n => intText n
  | .float x => PyFloat.text x
  | .str s => quote ascii s
  | .list items => '[' :: (printItems ascii items ++ [']'])
  | .dict entries => '\x7b' :: (printEntries ascii entries ++ ['\x7d'])

def printItems (ascii : Bool) : List (Json F) → List Char
  | [] => []
  | item :: items =>
    print ascii item ++ (if items.isEmpty then [] else ',' :: ' ' :: printItems ascii items)

def printEntries (ascii : Bool) : List (String × Json F) → List Char
  | [] => []
  | entry :: entries =>
    printEntry ascii entry ++ (if entries.isEmpty then [] else ',' :: ' ' :: printEntries ascii entries)

def printEntry (ascii : Bool) : String × Json F → List Char
  | (key, value) => quote ascii key ++ ':' :: ' ' :: print ascii value

end

end Print

section Parse

variable [PyFloat F]

def isSpace (c : Char) : Bool :=
  c = ' ' || c = '\t' || c = '\n' || c = '\r'

def skipSpaces (cs : List Char) : List Char :=
  cs.dropWhile isSpace

def words : List (List Char × Json F) :=
  [
    (['n', 'u', 'l', 'l'], .null),
    (['t', 'r', 'u', 'e'], .bool true),
    (['f', 'a', 'l', 's', 'e'], .bool false)
  ] ++ constants.map fun s => (s.toList, .float (PyFloat.ofText s.toList))

def wholeOf (ds : List Char) : Option Nat :=
  if isWhole ds then some (Nat.ofDigitChars 10 ds 0) else none

def intOf : List Char → Option Int
  | [] => none
  | c :: cs =>
    if c = '-' then (wholeOf cs).map fun (n : Nat) => -(n : Int) else (wholeOf (c :: cs)).map Int.ofNat

def parseNumber (cs : List Char) : Option (Json F × List Char) :=
  let token := cs.takeWhile isNumberChar
  let rest := cs.dropWhile isNumberChar
  if isFloatText token then
    some (.float (PyFloat.ofText token), rest)
  else
    (intOf token).map fun n => (.int n, rest)

def parseWord (cs : List Char) : Option (Json F × List Char) :=
  match words.find? (·.1.isPrefixOf cs) with
  | some word => some (word.2, cs.drop word.1.length)
  | none => parseNumber cs

def close (bracket : Char) (cs : List Char) : Option (Bool × List Char) :=
  match skipSpaces cs with
  | [] => none
  | c :: rest =>
    if c = bracket then some (true, rest)
    else if c = ',' then some (false, skipSpaces rest)
    else none

def readKey : List Char → Option (String × List Char)
  | [] => none
  | c :: cs =>
    if c = '"' then do
      let (key, rest) ← readString cs
      match skipSpaces rest with
      | ':' :: rest => return (key, skipSpaces rest)
      | _ => none
    else
      none

mutual

def parseValue : Nat → List Char → Option (Json F × List Char)
  | 0, _ => none
  | _ + 1, [] => none
  | fuel + 1, c :: cs =>
    if c = '"' then
      (readString cs).map fun r => (.str r.1, r.2)
    else if c = '[' then
      let cs := skipSpaces cs
      if cs.head? = some ']' then some (.list [], cs.tail)
      else (parseItems fuel cs).map fun r => (.list r.1, r.2)
    else if c = '\x7b' then
      let cs := skipSpaces cs
      if cs.head? = some '\x7d' then some (.dict [], cs.tail)
      else (parseEntries fuel cs).map fun r => (.dict r.1, r.2)
    else
      parseWord (c :: cs)

def parseItems : Nat → List Char → Option (List (Json F) × List Char)
  | 0, _ => none
  | fuel + 1, cs => do
    let (item, rest) ← parseValue fuel cs
    let (closed, rest) ← close ']' rest
    if closed then
      return ([item], rest)
    else
      let (items, rest) ← parseItems fuel rest
      return (item :: items, rest)

def parseEntries : Nat → List Char → Option (List (String × Json F) × List Char)
  | 0, _ => none
  | fuel + 1, cs => do
    let (key, rest) ← readKey cs
    let (value, rest) ← parseValue fuel rest
    let (closed, rest) ← close '\x7d' rest
    if closed then
      return ([(key, value)], rest)
    else
      let (entries, rest) ← parseEntries fuel rest
      return ((key, value) :: entries, rest)

end

def parse (cs : List Char) : Option (Json F) := do
  let (value, rest) ← parseValue cs.length (skipSpaces cs)
  if skipSpaces rest = [] then some value else none

end Parse

section Dicts

def setSorted (key : String) (value : Json F) : List (String × Json F) → List (String × Json F)
  | [] => [(key, value)]
  | entry :: entries =>
    if key < entry.1 then (key, value) :: entry :: entries
    else if key = entry.1 then (key, value) :: entries
    else entry :: setSorted key value entries

def sortEntries (entries : List (String × Json F)) : List (String × Json F) :=
  entries.foldl (fun sorted entry => setSorted entry.1 entry.2 sorted) []

mutual

def sorted : Json F → Json F
  | .list items => .list (sortedItems items)
  | .dict entries => .dict (sortEntries (sortedEntries entries))
  | .null => .null
  | .bool b => .bool b
  | .int n => .int n
  | .float x => .float x
  | .str s => .str s

def sortedItems : List (Json F) → List (Json F)
  | [] => []
  | item :: items => sorted item :: sortedItems items

def sortedEntries : List (String × Json F) → List (String × Json F)
  | [] => []
  | entry :: entries => sortedEntry entry :: sortedEntries entries

def sortedEntry : String × Json F → String × Json F
  | (key, value) => (key, sorted value)

end

end Dicts

variable [PyFloat F]

-- `json.dumps`, where the keys may be sorted and the text may be restricted to ASCII.
def dumps (ascii sortKeys : Bool) (value : Json F) : String :=
  String.ofList (print ascii (if sortKeys then value.sorted else value))

-- `json.loads`, where of the entries with one key the last one counts.
def loads (text : String) : Option (Json F) :=
  (parse text.toList).map sorted

end Json
