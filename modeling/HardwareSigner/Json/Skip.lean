import HardwareSigner.Json.Reader

/-!
Values that are passed over. Their text has to be JSON, to any depth, but what it stands for is
not asked: numbers may be of any size and surrogates may stand alone.
-/

namespace HardwareSigner.Json

def skipString : List Char → Option (List Char)
  | [] => none
  | '"' :: rest => some rest
  | '\\' :: 'u' :: a :: b :: c :: d :: rest =>
    if (codeUnit? a b c d).isSome then skipString rest else none
  | '\\' :: c :: rest => if (escaped? c).isSome then skipString rest else none
  | c :: rest => if c < ' ' then none else skipString rest

def skipDigits (cs : List Char) : Option (List Char) :=
  match cs with
  | [] => none
  | c :: rest => if c.isDigit then some (rest.dropWhile Char.isDigit) else none

def skipInteger : List Char → Option (List Char)
  | '0' :: rest => some rest
  | cs => skipDigits cs

def skipFraction : List Char → Option (List Char)
  | '.' :: rest => skipDigits rest
  | cs => some cs

def isExponent (c : Char) : Bool := c = 'e' || c = 'E'
def isSign (c : Char) : Bool := c = '+' || c = '-'

def skipExponent (cs : List Char) : Option (List Char) :=
  match cs with
  | [] => some []
  | c :: rest =>
    if isExponent c then skipDigits (if rest.head?.any isSign then rest.tail else rest)
    else some cs

def skipNumber (cs : List Char) : Option (List Char) := do
  let cs ← skipInteger (if cs.head? = some '-' then cs.tail else cs)
  let cs ← skipFraction cs
  skipExponent cs

def words : List (List Char) :=
  [['t', 'r', 'u', 'e'], ['f', 'a', 'l', 's', 'e'], ['n', 'u', 'l', 'l']]

def skipWord (cs : List Char) : Option (List Char) :=
  (words.find? (·.isPrefixOf cs)).map fun w => cs.drop w.length

inductive Bracket where
  | list
  | record
  deriving DecidableEq

def Bracket.close : Bracket → Char
  | list => ']'
  | record => '\x7d'

inductive Place where
  | value
  /-- A value, or the end of a list that has none. -/
  | firstItem
  /-- The name of a member. -/
  | member
  /-- The name of a member, or the end of a record that has none. -/
  | firstMember
  /-- What follows a value. -/
  | after
  deriving DecidableEq

def Bracket.next : Bracket → Place
  | list => .value
  | record => .member

/-- One character, or more, of a value inside these brackets. -/
def skipStep (up : List Bracket) (place : Place) (c : Char) (rest : List Char) :
    Option (List Bracket × Place × List Char) :=
  let closed : Option (List Bracket × Place × List Char) :=
    match up with
    | b :: up => if c = b.close then some (up, .after, rest) else none
    | [] => none
  let name : Option (List Bracket × Place × List Char) :=
    if c = '"' then do
      let rest ← skipString rest
      let (_, rest) ← mark ':' rest
      pure (up, .value, rest)
    else none
  let value : Option (List Bracket × Place × List Char) :=
    if c = '[' then some (.list :: up, .firstItem, rest)
    else if c = '\x7b' then some (.record :: up, .firstMember, rest)
    else if c = '"' then do pure (up, .after, ← skipString rest)
    else if c = '-' || c.isDigit then do pure (up, .after, ← skipNumber (c :: rest))
    else do pure (up, .after, ← skipWord (c :: rest))
  match place with
  | .value => value
  | .firstItem => closed <|> value
  | .member => name
  | .firstMember => closed <|> name
  | .after => if c = ',' then up.head?.map fun b => (up, b.next, rest) else closed

/-- Passes over characters until every bracket is closed; `fuel` bounds the steps. -/
def skipUntilClosed : Nat → List Bracket → Place → List Char → Option (List Char)
  | 0, _, _, _ => none
  | fuel + 1, up, place, cs =>
    if up = [] ∧ place = .after then some cs
    else
      match cs.dropWhile isBlank with
      | [] => none
      | c :: rest =>
        match skipStep up place c rest with
        | none => none
        | some (up, place, cs) => skipUntilClosed fuel up place cs

/-- Passes over a value. Every step takes a character at least. -/
def skipValue : TextReader Unit := fun cs => do
  let rest ← skipUntilClosed (cs.length + 1) [] .value cs
  pure ((), rest)

end HardwareSigner.Json
