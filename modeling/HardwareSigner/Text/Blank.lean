/-!
Blank characters, and the words between them.
-/

namespace HardwareSigner.Text

/-- The characters that Unicode calls white space. -/
def isBlank (c : Char) : Bool :=
  let v := c.val
  (0x09 ≤ v && v ≤ 0x0d) || v == 0x20 || v == 0x85 || v == 0xa0 || v == 0x1680 ||
    (0x2000 ≤ v && v ≤ 0x200a) || v == 0x2028 || v == 0x2029 || v == 0x202f || v == 0x205f ||
    v == 0x3000

def consFirst (c : Char) : List (List Char) → List (List Char)
  | [] => [[c]]
  | w :: ws => (c :: w) :: ws

/-- The pieces between blanks, with an empty piece where two blanks meet. -/
def pieces : List Char → List (List Char)
  | [] => [[]]
  | c :: cs => if isBlank c then [] :: pieces cs else consFirst c (pieces cs)

def words (s : String) : List String :=
  ((pieces s.toList).filter (!·.isEmpty)).map String.ofList

end HardwareSigner.Text
