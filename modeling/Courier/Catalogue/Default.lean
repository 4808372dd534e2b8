/-
# Courier.Catalogue.Default -- the default of a column, as written and as reported

A column declaration may end with a default: one literal, a signed literal, a bare name, or an
expression between parentheses. The database takes the declaration only if the default has one of
these forms, and later reports the text of the default as it was written. Of an expression it reports
what stands between the parentheses, without the blanks at its ends.

Expressions are checked for their form only: operands and operators alternate, parentheses match, and
every name is a constant or is called like a function, because a default cannot refer to a column. Casts,
case distinctions, ranges, lists and collations are not among these forms; a catalogue can list further
defaults that its database takes.
-/

namespace Courier.Catalogue.Default

/-! ## Tokens -/

inductive Token where
  /-- A name without quotes. -/
  | word (name : String)
  /-- A name between double quotes, grave accents or brackets. -/
  | quotedName
  | number
  /-- A string or a list of hexadecimal digits between single quotes. -/
  | literal
  /-- A sign that can also stand before an operand. -/
  | sign
  /-- A sign that can only stand before an operand. -/
  | complement
  | operator
  | comma
  | opened
  | closed
deriving DecidableEq, Repr

def isBlank (c : Char) : Bool :=
  c = ' ' || c = '\t' || c = '\n' || c = '\x0c' || c = '\r'

/-- A character that a name can start with. -/
def isNameStart (c : Char) : Bool :=
  c.isAlpha || c = '_' || 0x80 ≤ c.toNat

/-- A character that can stand inside a name. -/
def isNameChar (c : Char) : Bool :=
  isNameStart c || c.isDigit || c = '$'

def isHexDigit (c : Char) : Bool :=
  c.isDigit || ('a' ≤ c && c ≤ 'f') || ('A' ≤ c && c ≤ 'F')

/-- What follows a text up to its closing quote. A doubled quote stands for itself. -/
def afterQuote (quote : Char) : List Char → Option (List Char)
  | [] => none
  | [c] => if c = quote then some [] else none
  | c :: d :: rest =>
    if c ≠ quote then afterQuote quote (d :: rest)
    else if d = quote then afterQuote quote rest
    else some (d :: rest)

/-- What follows an unsigned number that starts the text. -/
def afterNumber (cs : List Char) : Option (List Char) :=
  match cs with
  | '0' :: x :: rest =>
    if (x = 'x' || x = 'X') && rest.head?.any isHexDigit then some (rest.dropWhile isHexDigit)
    else decimal cs
  | _ => decimal cs
where
  decimal (cs : List Char) : Option (List Char) :=
    let whole := cs.takeWhile Char.isDigit
    let rest := cs.dropWhile Char.isDigit
    let (fraction, rest) :=
      match rest with
      | '.' :: more => (more.takeWhile Char.isDigit, more.dropWhile Char.isDigit)
      | _ => ([], rest)
    if whole.isEmpty && fraction.isEmpty then none else some (exponent rest)
  exponent (cs : List Char) : List Char :=
    match cs with
    | e :: rest =>
      if e = 'e' || e = 'E' then
        let digits :=
          match rest with
          | s :: more => if s = '+' || s = '-' then more else rest
          | [] => []
        if digits.head?.any Char.isDigit then digits.dropWhile Char.isDigit else cs
      else cs
    | [] => []

/-- The operators of two characters. -/
def doubleOperators : List (List Char) :=
  [['|', '|'], ['<', '<'], ['>', '>'], ['<', '='], ['>', '='], ['=', '='], ['<', '>'], ['!', '='],
    ['-', '>']]

/-- The token at the start of a text that starts with no blank, and what follows it. -/
def token? (cs : List Char) : Option (Token × List Char) :=
  match cs with
  | [] => none
  | c :: rest =>
    if c = '(' then some (.opened, rest)
    else if c = ')' then some (.closed, rest)
    else if c = ',' then some (.comma, rest)
    else if c = '\'' then (afterQuote '\'' rest).map fun r => (.literal, r)
    else if c = '"' then (afterQuote '"' rest).map fun r => (.quotedName, r)
    else if c.toNat = 96 then (afterQuote c rest).map fun r => (.quotedName, r)
    else if c = '[' then
      match rest.dropWhile (· ≠ ']') with
      | [] => none
      | _ :: r => some (.quotedName, r)
    else if (c = 'x' || c = 'X') && rest.head? = some '\'' then do
      let r ← afterQuote '\'' (rest.drop 1)
      let body := (rest.drop 1).take (rest.length - 2 - r.length)
      if body.all isHexDigit && body.length % 2 = 0 then some (.literal, r) else none
    else if isNameStart c then
      some (.word (String.ofList (cs.takeWhile isNameChar)), cs.dropWhile isNameChar)
    else if c.isDigit || c = '.' then do
      let r ← afterNumber cs
      if r.head?.any isNameChar then none else some (.number, r)
    else if doubleOperators.contains (cs.take 2) then some (.operator, rest.drop 1)
    else if c = '+' || c = '-' then some (.sign, rest)
    else if c = '~' then some (.complement, rest)
    else if ['*', '/', '%', '&', '|', '<', '>', '='].contains c then some (.operator, rest)
    else none

/-- The tokens of a text, unless some part of it is no token. The length of the text is fuel
enough. -/
def tokens? (cs : List Char) : Option (List Token) :=
  go cs.length cs
where
  go : Nat → List Char → Option (List Token)
    | 0, cs => if cs.all isBlank then some [] else none
    | fuel + 1, cs =>
      match cs.dropWhile isBlank with
      | [] => some []
      | c :: rest => do
        let (t, rest) ← token? (c :: rest)
        let ts ← go fuel rest
        return t :: ts

/-! ## Names -/

/-- Words that cannot be used as names. -/
def reserved : List String :=
  ["add", "all", "alter", "and", "as", "autoincrement", "between", "case", "check", "collate",
    "commit", "constraint", "create", "default", "deferrable", "delete", "distinct", "drop", "else",
    "escape", "except", "exists", "foreign", "from", "group", "having", "in", "index", "insert",
    "intersect", "into", "is", "isnull", "join", "limit", "not", "nothing", "notnull", "null", "on",
    "or", "order", "primary", "references", "returning", "select", "set", "table", "then", "to",
    "transaction", "union", "unique", "update", "using", "values", "when", "where"]

/-- Names compare without regard to the case of their basic letters. -/
def folded (name : String) : String :=
  String.ofList (name.toList.map Char.toLower)

/-- Can the word be a name? -/
def isName (word : String) : Bool :=
  !reserved.contains (folded word)

/-- Words that stand for a value. -/
def isConstant (word : String) : Bool :=
  ["null", "true", "false", "current_time", "current_date", "current_timestamp"].contains (folded word)

/-- Words that stand for a value wherever a literal can stand. -/
def isLiteralWord (word : String) : Bool :=
  ["null", "current_time", "current_date", "current_timestamp"].contains (folded word)

/-- Words between two operands. -/
def isOperatorWord (word : String) : Bool :=
  ["and", "or", "is", "like", "glob"].contains (folded word)

/-! ## Expressions -/

/-- What may come next in an expression. -/
inductive Expecting where
  | operand
  /-- An operand, or the end of an empty list of arguments. -/
  | argument
  /-- The parenthesis after the name of a function. -/
  | call
  | operator
deriving DecidableEq, Repr

/-- What may come after a token, if it may stand here, with the parentheses that are still open. Each
is kept with whether it holds the arguments of a call. -/
def next? (t : Token) (expecting : Expecting) (calls : List Bool) :
    Option (Expecting × List Bool) :=
  match expecting, t with
  | .operator, .operator | .operator, .sign => some (.operand, calls)
  | .operator, .word w => if isOperatorWord w then some (.operand, calls) else none
  | .operator, .comma => if calls.head? = some true then some (.operand, calls) else none
  | .operator, .closed | .argument, .closed => some (.operator, calls.tail)
  | .call, .opened => some (.argument, true :: calls)
  | .operand, .opened | .argument, .opened => some (.operand, false :: calls)
  | .operand, .number | .operand, .literal | .argument, .number | .argument, .literal =>
    some (.operator, calls)
  | .operand, .sign | .operand, .complement | .argument, .sign | .argument, .complement =>
    some (.operand, calls)
  | .operand, .word w | .argument, .word w =>
    if folded w = "not" then some (.operand, calls)
    else if isConstant w then some (.operator, calls)
    else if isName w then some (.call, calls)
    else none
  | _, _ => none

/-- Do the tokens complete an expression? It is complete when its first parenthesis closes, and then
nothing may follow. -/
def completes : List Token → Expecting → List Bool → Bool
  | [], _, calls => calls.isEmpty
  | t :: rest, expecting, calls =>
    !calls.isEmpty &&
      match next? t expecting calls with
      | some (expecting, calls) => completes rest expecting calls
      | none => false

/-- Is the list of tokens a default that the database takes? -/
def isAccepted : List Token → Bool
  | [.number] | [.literal] | [.quotedName] => true
  | [.word w] => isLiteralWord w || isName w
  | [.sign, .number] | [.sign, .literal] => true
  | [.sign, .word w] => isLiteralWord w
  | .opened :: rest => completes rest .operand [false]
  | _ => false

def trimmed (cs : List Char) : List Char :=
  ((cs.dropWhile isBlank).reverse.dropWhile isBlank).reverse

/-- A text without its first and last character, if these are parentheses. -/
def unwrapped (cs : List Char) : List Char :=
  match cs with
  | '(' :: inner => if inner.getLast? = some ')' then inner.dropLast else cs
  | _ => cs

/-- A default without the blanks around it, without one pair of parentheses, and without the blanks just
inside these. -/
def report (text : String) : String :=
  String.ofList (trimmed (unwrapped (trimmed text.toList)))

/-- What the database reports of a default that it takes. -/
def reported? (text : String) : Option String := do
  let ts ← tokens? text.toList
  if isAccepted ts then
    let cs := trimmed text.toList
    return String.ofList (if ts.head? = some .opened then trimmed (unwrapped cs) else cs)
  else none

end Courier.Catalogue.Default
