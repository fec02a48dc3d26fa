import FramedSasl.Scenario.Tree

/-! Scenario files: the part of YAML that they are written in. Block maps and block sequences nest
by indentation; values are plain or quoted scalars, null, or a sequence of scalars in brackets on
one line. Everything else is refused with its place. -/

namespace FramedSasl.Yaml

/-- Why a text is refused. Line and column are counted from zero. -/
structure Refusal where
  line : Nat
  column : Nat
  what : Bytes

structure Line where
  number : Nat
  indent : Nat
  chars : List Char

def quote : Char := '\x22'

def apostrophe : Char := '\x27'

/-- The line up to a comment: a number sign at the start or behind a blank, outside quotes. A
backslash keeps a double quote from closing. -/
def withoutComment (quoted : Option Char) (blank : Bool) : List Char → List Char
  | [] => []
  | [c] => if c = '#' ∧ blank ∧ quoted.isNone then [] else [c]
  | c :: d :: rest =>
    match quoted with
    | some q =>
      if q = quote ∧ c = '\\' then c :: d :: withoutComment quoted false rest
      else c :: withoutComment (if c = q then none else quoted) true (d :: rest)
    | none =>
      if c = '#' ∧ blank then []
      else
        c :: withoutComment (if blank ∧ (c = quote ∨ c = apostrophe) then some c else none)
          (c = ' ' ∨ c = ',' ∨ c = '[') (d :: rest)

def trimRight (cs : List Char) : List Char := (cs.reverse.dropWhile (· = ' ')).reverse

def trim (cs : List Char) : List Char := trimRight (cs.dropWhile (· = ' '))

/-- The lines with anything on them. -/
def linesOf (source : String) : List Line :=
  let rows := source.splitOn "\n"
  let lines := rows.zipIdx.map fun (row, number) =>
    let chars := withoutComment none true (row.toList.filter (· ≠ '\r'))
    { number, indent := (chars.takeWhile (· = ' ')).length, chars := trim chars }
  lines.filter fun l => l.chars ≠ [] ∧ l.chars ≠ "---".toList

/-! ### Scalars -/

def hexValue? (cs : List Char) : Option Nat :=
  cs.foldl (fun acc c => do
    let n ← acc
    if '0' ≤ c ∧ c ≤ '9' then some (n * 16 + (c.toNat - 48))
    else if 'a' ≤ c.toLower ∧ c.toLower ≤ 'f' then some (n * 16 + (c.toLower.toNat - 87))
    else none) (some 0)

def escapes : List (Char × Char) :=
  [('0', '\x00'), ('a', '\x07'), ('b', '\x08'), ('t', '\t'), ('n', '\n'), ('v', '\x0b'),
    ('f', '\x0c'), ('r', '\r'), ('e', '\x1b'), (' ', ' '), ('/', '/'), ('\\', '\\'),
    (quote, quote)]

/-- The text in double quotes and what lies behind the closing one. -/
def doubleQuoted : List Char → Option (List Char × List Char)
  | [] => none
  | '\\' :: 'x' :: a :: b :: rest => do
    let n ← hexValue? [a, b]
    let (cs, rest) ← doubleQuoted rest
    return (Char.ofNat n :: cs, rest)
  | '\\' :: 'u' :: a :: b :: c :: d :: rest => do
    let n ← hexValue? [a, b, c, d]
    let (cs, rest) ← doubleQuoted rest
    return (Char.ofNat n :: cs, rest)
  | '\\' :: c :: rest => do
    let e ← escapes.lookup c
    let (cs, rest) ← doubleQuoted rest
    return (e :: cs, rest)
  | c :: rest =>
    if c = quote then some ([], rest)
    else do
      let (cs, rest) ← doubleQuoted rest
      return (c :: cs, rest)

/-- The text in single quotes, where a quote is written twice. -/
def singleQuoted : List Char → Option (List Char × List Char)
  | [] => none
  | [c] => if c = apostrophe then some ([], []) else none
  | c :: d :: rest =>
    if c = apostrophe then
      if d = apostrophe then do
        let (cs, rest) ← singleQuoted rest
        return (apostrophe :: cs, rest)
      else some ([], d :: rest)
    else do
      let (cs, rest) ← singleQuoted (d :: rest)
      return (c :: cs, rest)

def scalarOf (cs : List Char) : Tree := .scalar (text (String.ofList cs))

def plain (cs : List Char) : Tree :=
  if cs = [] ∨ cs = ['~'] ∨ cs.map Char.toLower = "null".toList then .null else scalarOf cs

/-- One scalar up to a character of `stops`, and what lies behind it. -/
def scalar (stops : List Char) (cs : List Char) : Option (Tree × List Char) :=
  match cs with
  | [] => some (.null, [])
  | c :: rest =>
    let quoted := if c = quote then doubleQuoted rest
      else if c = apostrophe then singleQuoted rest else none
    if c = quote ∨ c = apostrophe then
      quoted.map fun (cs, rest) => (scalarOf cs, rest.dropWhile (· = ' '))
    else
      some (plain (trimRight (cs.takeWhile (· ∉ stops))), cs.dropWhile (· ∉ stops))

/-- The items of a sequence in brackets, behind the opening one; `fuel` bounds their number. -/
def items : Nat → List Char → Option (List Tree)
  | 0, _ => none
  | fuel + 1, cs =>
    match scalar [',', ']'] (cs.dropWhile (· = ' ')) with
    | some (item, ',' :: rest) => (items fuel rest).map (item :: ·)
    | some (.null, [']']) => some []
    | some (item, [']']) => some [item]
    | _ => none

/-- The value on the rest of a line. -/
def value (cs : List Char) : Option Tree :=
  match cs with
  | '[' :: rest => (items cs.length rest).map .sequence
  | _ =>
    match scalar [] cs with
    | some (tree, []) => some tree
    | _ => none

/-! ### Numbers -/

def digit? (b : UInt8) : Option Nat :=
  if isDecimalDigit b then some (b.toNat - 48)
  else if 97 ≤ b ∧ b ≤ 102 then some (b.toNat - 87)
  else if 65 ≤ b ∧ b ≤ 70 then some (b.toNat - 55)
  else none

def isDigit (base : Nat) (b : UInt8) : Bool := (digit? b).any (· < base)

/-- The base that a number is written in, and what follows the mark of it. -/
def based : Bytes → Nat × Bytes
  | 48 :: 120 :: rest => (16, rest)
  | 48 :: 88 :: rest => (16, rest)
  | 48 :: rest => (8, 48 :: rest)
  | bytes => (10, bytes)

/-- The number of 32 bits that a scalar is: perhaps a plus, then digits, octal behind a zero and
hexadecimal behind `0x`, then nothing but blanks. -/
def word? (bytes : Bytes) : Option UInt32 :=
  let (base, rest) := based (match bytes with
    | 43 :: rest => rest
    | bytes => bytes)
  let digits := rest.takeWhile (isDigit base)
  let value := (digits.filterMap digit?).foldl (fun acc d => acc * base + d) 0
  if digits ≠ [] ∧ (rest.drop digits.length).all isBlank ∧ value < wordCount then
    some (UInt32.ofNat value)
  else none

/-! ### Blocks -/

/-- Key and value of a line of a map. -/
def keyed : List Char → Option (List Char × List Char)
  | [] => none
  | [':'] => some ([], [])
  | ':' :: ' ' :: rest => some ([], rest.dropWhile (· = ' '))
  | c :: rest => (keyed rest).map fun (key, value) => (c :: key, value)

def isItem : List Char → Bool
  | ['-'] => true
  | '-' :: ' ' :: _ => true
  | _ => false

def refuse {α : Type} (line : Line) (what : String) : Except Refusal α :=
  .error ⟨line.number, line.indent, text what⟩

def valueAt (line : Line) (cs : List Char) : Except Refusal Tree :=
  match value cs with
  | some tree => .ok tree
  | none => refuse line "bad value"

mutual

/-- The items of a sequence at `indent` and the lines behind it. -/
def sequence (fuel indent : Nat) (lines : List Line) : Except Refusal (List Tree × List Line) :=
  match fuel, lines with
  | fuel + 1, line :: rest =>
    if line.indent = indent ∧ isItem line.chars then do
      let item ← valueAt line (trim (line.chars.drop 1))
      let (more, rest) ← sequence fuel indent rest
      return (item :: more, rest)
    else return ([], line :: rest)
  | _, lines => return ([], lines)

/-- The entries of a map at `indent` and the lines behind it. -/
def entries (fuel indent : Nat) (lines : List Line) :
    Except Refusal (List (Bytes × Tree) × List Line) :=
  match fuel, lines with
  | fuel + 1, line :: rest =>
    if line.indent < indent then return ([], line :: rest)
    else if indent < line.indent then refuse line "bad indentation"
    else
      match keyed line.chars with
      | none => refuse line "expected a key"
      | some (key, cs) => do
        let (tree, rest) ← if cs = [] then block fuel indent rest
          else (·, rest) <$> valueAt line cs
        let (more, rest) ← entries fuel indent rest
        return ((text (String.ofList (trimRight key)), tree) :: more, rest)
  | _, lines => return ([], lines)

/-- What belongs to a key at `indent` without a value of its own. -/
def block (fuel indent : Nat) (lines : List Line) : Except Refusal (Tree × List Line) :=
  match fuel, lines with
  | fuel + 1, line :: rest =>
    if indent ≤ line.indent ∧ isItem line.chars then do
      let (trees, rest) ← sequence fuel line.indent (line :: rest)
      return (.sequence trees, rest)
    else if indent < line.indent then do
      let (pairs, rest) ← entries fuel line.indent (line :: rest)
      return (.map pairs, rest)
    else return (.null, line :: rest)
  | _, lines => return (.null, lines)

end

/-- The tree that a file starts with and the lines behind it. -/
def leading (fuel : Nat) (line : Line) (rest : List Line) : Except Refusal (Tree × List Line) := do
  if isItem line.chars then
    let (trees, behind) ← sequence fuel line.indent (line :: rest)
    return (.sequence trees, behind)
  else if (keyed line.chars).isNone then return (← valueAt line line.chars, rest)
  else
    let (pairs, behind) ← entries fuel line.indent (line :: rest)
    return (.map pairs, behind)

/-- The tree of a whole file. Every line makes at most two steps. -/
def parse (source : String) : Except Refusal Tree :=
  match linesOf source with
  | [] => .ok .null
  | line :: rest => do
    match ← leading (2 * rest.length + 4) line rest with
    | (tree, []) => return tree
    | (_, behind :: _) => refuse behind "bad indentation"

end FramedSasl.Yaml
