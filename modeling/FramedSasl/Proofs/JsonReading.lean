import FramedSasl.Journal.Json
import FramedSasl.Proofs.Numerals

/-! JSON texts, read byte by byte: what a program on the other side of the journal makes of a line.
Bytes from 0x80 on pass through strings as they are. An object as it is written reads back as the
members it was written from, whatever bytes their strings hold. -/

namespace FramedSasl.Json

/-- A JSON text, read. A number is its digits, and the power of ten that they count. -/
inductive Value where
  | null
  | bool (value : Bool)
  | number (digits exponent : Int)
  | string (bytes : Bytes)
  | array (items : List Value)
  | object (members : List (Bytes × Value))

variable {α : Type}

/-! Every reader gives what it read and what lies behind it. -/

def isSpace (b : UInt8) : Bool := b = 0x20 ∨ b = 0x09 ∨ b = 0x0A ∨ b = 0x0D

def behindSpace (bytes : Bytes) : Bytes := bytes.dropWhile isSpace

/-- What lies behind this byte, if it comes first. -/
def behind? (b : UInt8) : Bytes → Option Bytes
  | [] => none
  | c :: rest => if c = b then some rest else none

/-! ### Strings -/

def hexDigit? (b : UInt8) : Option Nat :=
  if 48 ≤ b ∧ b ≤ 57 then some (b.toNat - 48)
  else if 65 ≤ b ∧ b ≤ 70 then some (b.toNat - 55)
  else if 97 ≤ b ∧ b ≤ 102 then some (b.toNat - 87)
  else none

/-- A unit of UTF-16, four digits wide. -/
def unit? : Bytes → Option (Nat × Bytes)
  | a :: b :: c :: d :: rest => do
    let digits ← [a, b, c, d].mapM hexDigit?
    return (digits.foldl (fun acc digit => acc * 16 + digit) 0, rest)
  | _ => none

/-- A character in one unit or, beyond the first 65536, in a pair of surrogates. -/
def codePoint? (bytes : Bytes) : Option (Nat × Bytes) := do
  let (unit, rest) ← unit? bytes
  if unit < 0xD800 ∨ 0xE000 ≤ unit then return (unit, rest)
  else
    let (low, rest) ← unit? (← behind? 0x75 (← behind? 0x5C rest))
    if unit < 0xDC00 ∧ 0xDC00 ≤ low ∧ low < 0xE000 then
      return (0x10000 + (unit - 0xD800) * 0x400 + (low - 0xDC00), rest)
    else none

/-- What stands behind a backslash, and the byte that both stand for. -/
def escapes : List (UInt8 × UInt8) :=
  [(0x22, 0x22), (0x5C, 0x5C), (0x2F, 0x2F), (0x62, 0x08), (0x66, 0x0C), (0x6E, 0x0A), (0x72, 0x0D),
    (0x74, 0x09)]

/-- The bytes that an escape stands for, read behind its backslash. -/
def escaped? (bytes : Bytes) : Option (Bytes × Bytes) :=
  match behind? 0x75 bytes with
  | some rest => (codePoint? rest).map fun (c, rest) => (String.utf8EncodeChar (Char.ofNat c), rest)
  | none =>
    match bytes with
    | [] => none
    | b :: rest => (escapes.lookup b).map fun e => ([e], rest)

/-- The bytes that the first character of a string stands for. -/
def character? (bytes : Bytes) : Option (Bytes × Bytes) :=
  match behind? 0x5C bytes with
  | some rest => escaped? rest
  | none =>
    match bytes with
    | [] => none
    | b :: rest => if 0x20 ≤ b ∧ b ≠ 0x22 then some ([b], rest) else none

/-- The characters up to the closing quote. There are no more of them than bytes, which bounds the
recursion. -/
def characters? : Nat → Bytes → Option (Bytes × Bytes)
  | 0, _ => none
  | budget + 1, bytes =>
    match behind? 0x22 bytes with
    | some rest => some ([], rest)
    | none => do
      let (head, rest) ← character? bytes
      let (tail, rest) ← characters? budget rest
      return (head ++ tail, rest)

def string? (bytes : Bytes) : Option (Bytes × Bytes) := do
  let rest ← behind? 0x22 bytes
  characters? rest.length rest

/-- What stands between the quotes of a string, as the bytes that it stands for. -/
def unescape (content : Bytes) : Option Bytes :=
  match string? (text "\"" ++ content ++ text "\"") with
  | some (bytes, []) => some bytes
  | _ => none

/-! ### Numbers -/

def digits? (bytes : Bytes) : Option (Bytes × Bytes) :=
  let digits := bytes.takeWhile isDecimalDigit
  if digits = [] then none else some (digits, bytes.dropWhile isDecimalDigit)

/-- Zero stands alone before a point. -/
def whole? (bytes : Bytes) : Option (Bytes × Bytes) := do
  let (digits, rest) ← digits? bytes
  if digits.head? = some 0x30 ∧ digits ≠ [0x30] then none else return (digits, rest)

def fraction? (bytes : Bytes) : Option (Bytes × Bytes) :=
  match behind? 0x2E bytes with
  | some rest => digits? rest
  | none => some ([], bytes)

def minus (bytes : Bytes) : Int × Bytes :=
  match behind? 0x2D bytes with
  | some rest => (-1, rest)
  | none => (1, bytes)

def exponent? (bytes : Bytes) : Option (Int × Bytes) :=
  match behind? 0x65 bytes <|> behind? 0x45 bytes with
  | none => some (0, bytes)
  | some rest => do
    let (sign, rest) := match behind? 0x2B rest with
      | some rest => (1, rest)
      | none => minus rest
    let (digits, rest) ← digits? rest
    return (sign * decimalValue digits, rest)

def number? (bytes : Bytes) : Option (Value × Bytes) := do
  let (sign, rest) := minus bytes
  let (whole, rest) ← whole? rest
  let (fraction, rest) ← fraction? rest
  let (exponent, rest) ← exponent? rest
  return (.number (sign * decimalValue (whole ++ fraction)) (exponent - fraction.length), rest)

/-! ### Values -/

def word? (word : String) (value : Value) (bytes : Bytes) : Option (Value × Bytes) :=
  if (text word).isPrefixOf bytes then some (value, bytes.drop (text word).length) else none

/-- One item or more, with commas between them, up to `close`. -/
def separated? (item : Bytes → Option (α × Bytes)) (close : UInt8) :
    Nat → Bytes → Option (List α × Bytes)
  | 0, _ => none
  | budget + 1, bytes => do
    let (head, rest) ← item bytes
    let rest := behindSpace rest
    match behind? close rest with
    | some rest => return ([head], rest)
    | none =>
      let (tail, rest) ← separated? item close budget (← behind? 0x2C rest)
      return (head :: tail, rest)

def enclosed? (item : Bytes → Option (α × Bytes)) (opening close : UInt8) (budget : Nat)
    (bytes : Bytes) : Option (List α × Bytes) := do
  let rest := behindSpace (← behind? opening bytes)
  match behind? close rest with
  | some rest => return ([], rest)
  | none => separated? item close budget rest

def member? (value : Bytes → Option (Value × Bytes)) (bytes : Bytes) :
    Option ((Bytes × Value) × Bytes) := do
  let (key, rest) ← string? (behindSpace bytes)
  let (value, rest) ← value (← behind? 0x3A (behindSpace rest))
  return ((key, value), rest)

/-- The value that a text starts with. Every level of nesting takes a byte at least, and so does
every item, which bounds the recursion. -/
def value? : Nat → Bytes → Option (Value × Bytes)
  | 0, _ => none
  | budget + 1, bytes =>
    let bytes := behindSpace bytes
    (enclosed? (member? (value? budget)) 0x7B 0x7D budget bytes).map (Prod.map .object id) <|>
    (enclosed? (value? budget) 0x5B 0x5D budget bytes).map (Prod.map .array id) <|>
    (string? bytes).map (Prod.map .string id) <|>
    number? bytes <|>
    word? "null" .null bytes <|> word? "true" (.bool true) bytes <|>
    word? "false" (.bool false) bytes

/-- The value that a text is. -/
def parse (bytes : Bytes) : Option Value := do
  let (value, rest) ← value? bytes.length bytes
  if behindSpace rest = [] then return value else none

example : parse (text "[-1.50e+3, \"\\ud83d\\ude00\"]") =
    some (.array [.number (-150) 1, .string (text "😀")]) := by
  rfl

example : parse (text "[1, ]") = none := by rfl

/-! ### Strings read back -/

theorem behind?_self (b : UInt8) (rest : Bytes) : behind? b (b :: rest) = some rest := if_pos rfl

theorem behind?_of_ne {b c : UInt8} (h : c ≠ b) (rest : Bytes) : behind? b (c :: rest) = none :=
  if_neg h

theorem behindSpace_of_not {b : UInt8} (h : isSpace b = false) (rest : Bytes) :
    behindSpace (b :: rest) = b :: rest :=
  List.dropWhile_cons_of_neg (by rw [h]; decide)

theorem unit?_control : ∀ n < 0x20,
    unit? (text "00" ++ hexByteLower (UInt8.ofNat n)) = some (n, []) := by
  decide

theorem utf8_control : ∀ n < 0x20, String.utf8EncodeChar (Char.ofNat n) = [UInt8.ofNat n] := by
  decide

theorem unit?_append {bytes : Bytes} {n : Nat} (h : unit? bytes = some (n, [])) (rest : Bytes) :
    unit? (bytes ++ rest) = some (n, rest) := by
  unfold unit? at h
  split at h
  · next a b c d behind =>
    obtain ⟨digits, hdigits, h⟩ := Option.bind_eq_some_iff.1 h
    cases h
    exact Option.bind_eq_some_iff.2 ⟨digits, hdigits, rfl⟩
  · cases h

theorem codePoint?_of_unit? {bytes rest : Bytes} {n : Nat} (h : unit? bytes = some (n, rest))
    (hn : n < 0xD800) : codePoint? bytes = some (n, rest) := by
  unfold codePoint?
  rw [h]
  exact if_pos (.inl hn)

/-- How a byte of a string is written. -/
inductive Spelled (b : UInt8) : Bytes → Prop where
  /-- Behind a backslash, for itself or by a letter. -/
  | short (e : UInt8) (hspecial : b < 0x20 ∨ b = 0x22 ∨ b = 0x5C)
      (hlookup : escapes.lookup e = some b) (hletter : e ≠ 0x75) (hleast : 0x20 ≤ e) :
      Spelled b [0x5C, e]
  /-- By its digits. -/
  | digits (hcontrol : b < 0x20) : Spelled b (0x5C :: 0x75 :: text "00" ++ hexByteLower b)
  | plain (hleast : 0x20 ≤ b) (hquote : b ≠ 0x22) (hbackslash : b ≠ 0x5C) : Spelled b [b]

theorem spelled_escapeByte (b : UInt8) : Spelled b (escapeByte b) := by
  by_cases hquote : b = 0x22
  · subst b
    exact .short 0x22 (by decide) (by decide) (by decide) (by decide)
  by_cases hbackslash : b = 0x5C
  · subst b
    exact .short 0x5C (by decide) (by decide) (by decide) (by decide)
  by_cases hbackspace : b = 0x08
  · subst b
    exact .short 0x62 (by decide) (by decide) (by decide) (by decide)
  by_cases hfeed : b = 0x0C
  · subst b
    exact .short 0x66 (by decide) (by decide) (by decide) (by decide)
  by_cases hnewline : b = 0x0A
  · subst b
    exact .short 0x6E (by decide) (by decide) (by decide) (by decide)
  by_cases hreturn : b = 0x0D
  · subst b
    exact .short 0x72 (by decide) (by decide) (by decide) (by decide)
  by_cases htab : b = 0x09
  · subst b
    exact .short 0x74 (by decide) (by decide) (by decide) (by decide)
  unfold escapeByte
  rw [if_neg hquote, if_neg hbackslash, if_neg hbackspace, if_neg hfeed, if_neg hnewline,
    if_neg hreturn, if_neg htab]
  by_cases hcontrol : b < 0x20
  · rw [if_pos hcontrol]
    exact .digits hcontrol
  · rw [if_neg hcontrol]
    exact .plain (UInt8.not_lt.1 hcontrol) hquote hbackslash

namespace Spelled

variable {b : UInt8} {bytes : Bytes}

theorem read (h : Spelled b bytes) (rest : Bytes) :
    character? (bytes ++ rest) = some ([b], rest) := by
  cases h with
  | short e _ hlookup hletter _ =>
    change escaped? (e :: rest) = _
    unfold escaped?
    rw [behind?_of_ne hletter]
    simp only [hlookup, Option.map_some]
  | digits hcontrol =>
    have hunit := unit?_append (unit?_control b.toNat hcontrol) rest
    rw [UInt8.ofNat_toNat] at hunit
    change (codePoint? (text "00" ++ hexByteLower b ++ rest)).map _ = _
    rw [codePoint?_of_unit? hunit (Nat.lt_trans hcontrol (by decide))]
    change some (String.utf8EncodeChar (Char.ofNat b.toNat), rest) = _
    rw [utf8_control b.toNat hcontrol, UInt8.ofNat_toNat]
  | plain hleast hquote hbackslash =>
    unfold character?
    rw [List.singleton_append, behind?_of_ne hbackslash]
    exact if_pos ⟨hleast, hquote⟩

/-- The first byte is not the quote that would end the string. -/
theorem not_quote (h : Spelled b bytes) (rest : Bytes) : behind? 0x22 (bytes ++ rest) = none := by
  cases h with
  | short e _ _ _ _ => exact behind?_of_ne (by decide) _
  | digits _ => exact behind?_of_ne (by decide) _
  | plain _ hquote _ => exact behind?_of_ne hquote _

theorem length_pos (h : Spelled b bytes) : 0 < bytes.length := by
  cases h <;> exact Nat.zero_lt_succ _

end Spelled

theorem escape_cons (b : UInt8) (bytes : Bytes) :
    escape (b :: bytes) = escapeByte b ++ escape bytes :=
  List.flatMap_cons

theorem characters?_escape (bytes rest : Bytes) {budget : Nat} (h : bytes.length < budget) :
    characters? budget (escape bytes ++ 0x22 :: rest) = some (bytes, rest) := by
  induction bytes generalizing budget with
  | nil =>
    obtain ⟨budget, rfl⟩ := Nat.exists_eq_add_one_of_ne_zero (Nat.ne_zero_of_lt h)
    rfl
  | cons b bytes ih =>
    obtain ⟨budget, rfl⟩ := Nat.exists_eq_add_one_of_ne_zero (Nat.ne_zero_of_lt h)
    have hrest : characters? budget (escape bytes ++ 0x22 :: rest) = some (bytes, rest) :=
      ih (Nat.lt_of_succ_lt_succ h)
    unfold characters?
    rw [escape_cons, List.append_assoc, (spelled_escapeByte b).not_quote,
      (spelled_escapeByte b).read]
    change (characters? budget _).bind _ = _
    rw [hrest]
    rfl

theorem length_le_escape (bytes : Bytes) : bytes.length ≤ (escape bytes).length := by
  induction bytes with
  | nil => exact Nat.zero_le _
  | cons b bytes ih =>
    have hpos := (spelled_escapeByte b).length_pos
    rw [escape_cons, List.length_append, List.length_cons]
    omega

theorem string?_quoted (bytes rest : Bytes) :
    string? (quoted bytes ++ rest) = some (bytes, rest) := by
  have hlength : bytes.length < (escape bytes ++ 0x22 :: rest).length := by
    have := length_le_escape bytes
    rw [List.length_append, List.length_cons]
    omega
  have hquoted : quoted bytes ++ rest = 0x22 :: (escape bytes ++ 0x22 :: rest) := by
    unfold quoted
    rw [List.append_assoc, List.append_assoc]
    rfl
  unfold string?
  rw [hquoted, behind?_self]
  exact characters?_escape bytes rest hlength

theorem unescape_escape (bytes : Bytes) : unescape (escape bytes) = some bytes := by
  have h := string?_quoted bytes []
  rw [List.append_nil] at h
  unfold unescape
  rw [show text "\"" ++ escape bytes ++ text "\"" = quoted bytes from rfl, h]

/-! ### Numbers read back -/

theorem digits?_decimal (n : Nat) {b : UInt8} (hb : isDecimalDigit b = false) (rest : Bytes) :
    digits? (decimal n ++ b :: rest) = some (decimal n, b :: rest) := by
  have hdigits : ∀ d ∈ decimal n, isDecimalDigit d = true := fun d => isDecimalDigit_of_mem_decimal
  have hb' : ¬ isDecimalDigit b = true := by simp [hb]
  unfold digits?
  rw [List.takeWhile_append_of_pos hdigits, List.dropWhile_append_of_pos hdigits,
    List.takeWhile_cons_of_neg hb', List.dropWhile_cons_of_neg hb', List.append_nil]
  exact if_neg (decimal_ne_nil n)

theorem whole?_decimal (n : Nat) {b : UInt8} (hb : isDecimalDigit b = false) (rest : Bytes) :
    whole? (decimal n ++ b :: rest) = some (decimal n, b :: rest) := by
  unfold whole?
  rw [digits?_decimal n hb]
  refine if_neg ?_
  rintro ⟨hzero, hne⟩
  rw [eq_zero_of_head?_decimal hzero] at hne
  exact hne rfl

/-- What may stand behind a member of an object. -/
def Ending (b : UInt8) : Prop := b = 0x2C ∨ b = 0x7D

theorem Ending.not_digit {b : UInt8} (h : Ending b) : isDecimalDigit b = false := by
  obtain rfl | rfl := h <;> decide

theorem behind?_decimal {c : UInt8} (hc : isDecimalDigit c = false) (n : Nat) (rest : Bytes) :
    behind? c (decimal n ++ rest) = none := by
  obtain ⟨d, ds, hds, hdigit⟩ := exists_decimal_eq n
  rw [hds]
  refine behind?_of_ne ?_ _
  rintro rfl
  rw [hdigit] at hc
  cases hc

theorem fraction?_ending {b : UInt8} (hb : Ending b) (rest : Bytes) :
    fraction? (b :: rest) = some ([], b :: rest) := by
  obtain rfl | rfl := hb <;> rfl

theorem exponent?_ending {b : UInt8} (hb : Ending b) (rest : Bytes) :
    exponent? (b :: rest) = some (0, b :: rest) := by
  obtain rfl | rfl := hb <;> rfl

theorem number?_decimal (n : Nat) {b : UInt8} (hb : Ending b) (rest : Bytes) :
    number? (decimal n ++ b :: rest) = some (.number n 0, b :: rest) := by
  have hminus : minus (decimal n ++ b :: rest) = (1, decimal n ++ b :: rest) := by
    unfold minus
    rw [behind?_decimal (by decide)]
  unfold number?
  rw [hminus]
  dsimp only
  rw [whole?_decimal n hb.not_digit]
  change (fraction? (b :: rest)).bind _ = _
  rw [fraction?_ending hb]
  change (exponent? (b :: rest)).bind _ = _
  rw [exponent?_ending hb]
  change some (Value.number (1 * decimalValue (decimal n ++ [])) 0, b :: rest) = _
  rw [List.append_nil, decimalValue_decimal, Int.one_mul]

/-! ### Objects read back -/

namespace Scalar

/-- The scalar as it reads back. -/
def value : Scalar → Value
  | string bytes => .string bytes
  | number n => .number n 0
  | bool value => .bool value

end Scalar

theorem enclosed?_of_behind? {item : Bytes → Option (α × Bytes)} {opening : UInt8} {bytes : Bytes}
    (h : behind? opening bytes = none) (close : UInt8) (budget : Nat) :
    enclosed? item opening close budget bytes = none := by
  unfold enclosed?
  rw [h]
  rfl

/-- A value that begins with none of the brackets is a string, a number or a word. -/
theorem value?_of_behind? {bytes : Bytes} (hspace : behindSpace bytes = bytes)
    (hobject : behind? 0x7B bytes = none) (harray : behind? 0x5B bytes = none) (budget : Nat) :
    value? (budget + 1) bytes = ((string? bytes).map (Prod.map .string id) <|> number? bytes <|>
      word? "null" .null bytes <|> word? "true" (.bool true) bytes <|>
      word? "false" (.bool false) bytes) := by
  unfold value?
  dsimp only
  rw [hspace, enclosed?_of_behind? hobject, enclosed?_of_behind? harray]
  rfl

theorem behindSpace_quoted (bytes rest : Bytes) :
    behindSpace (quoted bytes ++ rest) = quoted bytes ++ rest :=
  behindSpace_of_not (by decide) _

theorem isSpace_of_digit {b : UInt8} (h : isDecimalDigit b = true) : isSpace b = false := by
  refine decide_eq_false fun hspace => ?_
  obtain rfl | rfl | rfl | rfl := hspace <;> cases h

theorem behindSpace_decimal (n : Nat) (rest : Bytes) :
    behindSpace (decimal n ++ rest) = decimal n ++ rest := by
  obtain ⟨d, ds, hds, hdigit⟩ := exists_decimal_eq n
  rw [hds]
  exact behindSpace_of_not (isSpace_of_digit hdigit) _

theorem value?_render (scalar : Scalar) {b : UInt8} (hb : Ending b) (budget : Nat) (rest : Bytes) :
    value? (budget + 1) (scalar.render ++ b :: rest) = some (scalar.value, b :: rest) := by
  cases scalar with
  | string bytes =>
    change value? (budget + 1) (quoted bytes ++ b :: rest) = _
    rw [value?_of_behind? (behindSpace_quoted _ _) rfl rfl, string?_quoted]
    rfl
  | number n =>
    have hstring : string? (decimal n ++ b :: rest) = none := by
      unfold string?
      rw [behind?_decimal (by decide)]
      rfl
    change value? (budget + 1) (decimal n ++ b :: rest) = _
    rw [value?_of_behind? (behindSpace_decimal _ _) (behind?_decimal (by decide) _ _)
      (behind?_decimal (by decide) _ _), hstring, number?_decimal n hb]
    rfl
  | bool value =>
    cases value with
    | true => rfl
    | false => rfl

/-- A member of an object as it is written. -/
def member (entry : String × Scalar) : Bytes :=
  quoted (text entry.1) ++ text ":" ++ entry.2.render

/-- A member of an object as it reads back. -/
def read (entry : String × Scalar) : Bytes × Value := (text entry.1, entry.2.value)

theorem member?_member (entry : String × Scalar) {b : UInt8} (hb : Ending b) (budget : Nat)
    (rest : Bytes) :
    member? (value? (budget + 1)) (member entry ++ b :: rest) = some (read entry, b :: rest) := by
  have hkey : member entry ++ b :: rest =
      quoted (text entry.1) ++ (0x3A :: (entry.2.render ++ b :: rest)) := by
    unfold member
    rw [List.append_assoc, List.append_assoc]
    rfl
  unfold member?
  rw [hkey, behindSpace_quoted, string?_quoted]
  change ((value? (budget + 1)) (entry.2.render ++ b :: rest)).bind _ = _
  rw [value?_render entry.2 hb]
  rfl

theorem commaSeparated_cons_cons (part next : Bytes) (parts : List Bytes) :
    commaSeparated (part :: next :: parts) = part ++ 0x2C :: commaSeparated (next :: parts) := by
  unfold commaSeparated
  rw [List.intercalate_cons_cons, List.append_assoc]
  rfl

theorem length_le_commaSeparated {parts : List Bytes} (h : ∀ part ∈ parts, part ≠ []) :
    parts.length ≤ (commaSeparated parts).length := by
  induction parts with
  | nil => exact Nat.zero_le _
  | cons part parts ih =>
    have hpart : 1 ≤ part.length := List.length_pos_iff.2 (h part List.mem_cons_self)
    have hparts := ih fun p hp => h p (List.mem_cons_of_mem part hp)
    cases parts with
    | nil =>
      rw [commaSeparated, List.intercalate_singleton]
      exact hpart
    | cons next parts =>
      rw [commaSeparated_cons_cons]
      simp only [List.length_append, List.length_cons] at hparts ⊢
      omega

/-- Items that read back one by one read back together. -/
theorem separated?_commaSeparated {β : Type} {item : Bytes → Option (α × Bytes)} {write : β → Bytes}
    {back : β → α}
    (hitem : ∀ x b rest, Ending b → item (write x ++ b :: rest) = some (back x, b :: rest))
    {xs : List β} (hne : xs ≠ []) {budget : Nat} (hbudget : xs.length ≤ budget) (rest : Bytes) :
    separated? item 0x7D budget (commaSeparated (xs.map write) ++ 0x7D :: rest) =
      some (xs.map back, rest) := by
  induction xs generalizing budget with
  | nil => exact absurd rfl hne
  | cons x xs ih =>
    obtain ⟨budget, rfl⟩ := Nat.exists_eq_add_one_of_ne_zero (Nat.ne_zero_of_lt hbudget)
    unfold separated?
    cases xs with
    | nil =>
      change (item (commaSeparated [write x] ++ 0x7D :: rest)).bind _ = _
      rw [commaSeparated, List.intercalate_singleton, hitem x _ rest (.inr rfl)]
      rfl
    | cons y ys =>
      have hys : separated? item 0x7D budget
          (commaSeparated ((y :: ys).map write) ++ 0x7D :: rest) = some ((y :: ys).map back, rest) :=
        ih (List.cons_ne_nil y ys) (Nat.le_of_succ_le_succ hbudget)
      change (item (commaSeparated (write x :: write y :: ys.map write) ++ 0x7D :: rest)).bind _ = _
      rw [commaSeparated_cons_cons, List.append_assoc, List.cons_append, hitem x _ _ (.inl rfl)]
      change (separated? item 0x7D budget _).bind _ = _
      rw [← List.map_cons, hys]
      rfl

theorem object_eq (members : List (String × Scalar)) :
    object members = 0x7B :: (commaSeparated (members.map member) ++ [0x7D]) :=
  rfl

theorem exists_members_eq (entry : String × Scalar) (members : List (String × Scalar)) :
    ∃ bytes, commaSeparated ((entry :: members).map member) = 0x22 :: bytes := by
  cases members with
  | nil => exact ⟨_, List.intercalate_singleton⟩
  | cons next members => exact ⟨_, commaSeparated_cons_cons _ _ _⟩

theorem length_object (members : List (String × Scalar)) :
    members.length + 2 ≤ (object members).length := by
  have hne : ∀ part ∈ members.map member, part ≠ [] := by
    intro part hpart
    obtain ⟨entry, -, rfl⟩ := List.mem_map.1 hpart
    exact List.cons_ne_nil _ _
  have hmembers := length_le_commaSeparated hne
  rw [List.length_map] at hmembers
  rw [object_eq, List.length_cons, List.length_append, List.length_singleton]
  omega

theorem enclosed?_object (members : List (String × Scalar)) (depth : Nat) {budget : Nat}
    (h : members.length ≤ budget) :
    enclosed? (member? (value? (depth + 1))) 0x7B 0x7D budget (object members) =
      some (members.map read, []) := by
  cases members with
  | nil => rfl
  | cons entry members =>
    have hitem (entry : String × Scalar) (b : UInt8) (rest : Bytes) (hb : Ending b) :=
      member?_member entry hb depth rest
    have hitems := separated?_commaSeparated hitem (List.cons_ne_nil entry members) h []
    obtain ⟨bytes, hbytes⟩ := exists_members_eq entry members
    rw [hbytes] at hitems
    rw [object_eq, hbytes]
    exact hitems

/-- An object that is written reads back as its members, in their order and nothing else. -/
theorem parse_object (members : List (String × Scalar)) :
    parse (object members) = some (.object (members.map read)) := by
  have hlength := length_object members
  obtain ⟨budget, hbudget⟩ : ∃ n, (object members).length = n + 2 :=
    ⟨(object members).length - 2, by omega⟩
  have hobject : enclosed? (member? (value? (budget + 1))) 0x7B 0x7D (budget + 1) (object members) =
      some (members.map read, []) := enclosed?_object members budget (by omega)
  have hvalue : value? (budget + 2) (object members) = some (.object (members.map read), []) := by
    unfold value?
    dsimp only
    rw [show behindSpace (object members) = object members from rfl, hobject]
    rfl
  unfold parse
  rw [hbudget, hvalue]
  rfl

/-! ### No control characters -/

/-- There is no control character among these. -/
def Printable (bytes : Bytes) : Prop := ∀ b ∈ bytes, 0x20 ≤ b

instance : DecidablePred Printable := List.decidableBAll _

theorem Printable.append {front back : Bytes} (h : Printable front) (h' : Printable back) :
    Printable (front ++ back) :=
  List.forall_mem_append.2 ⟨h, h'⟩

theorem printable_control : ∀ n < 0x20, Printable (hexByteLower (UInt8.ofNat n)) := by
  decide

theorem Spelled.printable {b : UInt8} {bytes : Bytes} (h : Spelled b bytes) : Printable bytes := by
  cases h with
  | short e _ _ _ hleast =>
    exact List.forall_mem_cons.2 ⟨by decide, List.forall_mem_singleton.2 hleast⟩
  | digits hcontrol =>
    have hdigits := printable_control b.toNat hcontrol
    rw [UInt8.ofNat_toNat] at hdigits
    exact Printable.append (by decide) hdigits
  | plain hleast _ _ => exact List.forall_mem_singleton.2 hleast

theorem printable_quoted (bytes : Bytes) : Printable (quoted bytes) := by
  have hescape : Printable (escape bytes) := by
    intro c hc
    obtain ⟨b, -, hb⟩ := List.mem_flatMap.1 hc
    exact (spelled_escapeByte b).printable c hb
  have hquote : Printable (text "\"") := by decide
  exact (hquote.append hescape).append hquote

theorem printable_decimal (n : Nat) : Printable (decimal n) := by
  intro b hb
  have hdigit := isDecimalDigit_of_mem_decimal hb
  simp only [isDecimalDigit, Bool.and_eq_true, decide_eq_true_eq] at hdigit
  exact UInt8.le_trans (by decide) hdigit.1

theorem printable_render (scalar : Scalar) : Printable scalar.render := by
  cases scalar with
  | string bytes => exact printable_quoted bytes
  | number n => exact printable_decimal n
  | bool value => cases value <;> decide

theorem printable_commaSeparated {parts : List Bytes} (h : ∀ part ∈ parts, Printable part) :
    Printable (commaSeparated parts) := by
  induction parts with
  | nil => exact fun _ hb => absurd hb List.not_mem_nil
  | cons part parts ih =>
    have hpart := h part List.mem_cons_self
    have hparts := ih fun p hp => h p (List.mem_cons_of_mem part hp)
    cases parts with
    | nil =>
      rw [commaSeparated, List.intercalate_singleton]
      exact hpart
    | cons next parts =>
      rw [commaSeparated_cons_cons]
      exact hpart.append (List.forall_mem_cons.2 ⟨by decide, hparts⟩)

theorem printable_object (members : List (String × Scalar)) : Printable (object members) := by
  have hmembers : ∀ part ∈ members.map member, Printable part := by
    intro part hpart
    obtain ⟨entry, -, rfl⟩ := List.mem_map.1 hpart
    have hcolon : Printable (text ":") := by decide
    exact ((printable_quoted _).append hcolon).append (printable_render entry.2)
  rw [object_eq]
  refine List.forall_mem_cons.2 ⟨by decide, (printable_commaSeparated hmembers).append ?_⟩
  exact List.forall_mem_singleton.2 (by decide)

/-! ### What stands as it is -/

/-- No byte of these is written with a backslash. -/
def Unescaped (bytes : Bytes) : Prop := ∀ b ∈ bytes, 0x20 ≤ b ∧ b ≠ 0x22 ∧ b ≠ 0x5C

instance : DecidablePred Unescaped := List.decidableBAll _

theorem Unescaped.append {front back : Bytes} (h : Unescaped front) (h' : Unescaped back) :
    Unescaped (front ++ back) :=
  List.forall_mem_append.2 ⟨h, h'⟩

theorem Spelled.eq_of_unescaped {b : UInt8} {bytes : Bytes} (h : Spelled b bytes)
    (hleast : 0x20 ≤ b) (hquote : b ≠ 0x22) (hbackslash : b ≠ 0x5C) : bytes = [b] := by
  have hcontrol : ¬ b < 0x20 := UInt8.not_lt.2 hleast
  cases h with
  | short _ hspecial _ _ _ =>
    obtain h | h | h := hspecial
    · exact absurd h hcontrol
    · exact absurd h hquote
    · exact absurd h hbackslash
  | digits h => exact absurd h hcontrol
  | plain _ _ _ => rfl

theorem escape_of_unescaped {bytes : Bytes} (h : Unescaped bytes) : escape bytes = bytes := by
  induction bytes with
  | nil => rfl
  | cons b bytes ih =>
    obtain ⟨⟨hleast, hquote, hbackslash⟩, hbytes⟩ := List.forall_mem_cons.1 h
    rw [escape_cons, ih hbytes, (spelled_escapeByte b).eq_of_unescaped hleast hquote hbackslash]
    rfl

end FramedSasl.Json
