import PodTarget.Json.Document
import PodTarget.Json.Quoted

/-! JSON (RFC 8259) on lines: each item and each member of a non-empty array or
object on a line of its own, two blanks further in than the brackets around it, and
one blank after the colon of a member. A double is written with the fewest digits
that read back. What has no value has no text either. -/

namespace PodTarget.Json

/-- A double has at most sixteen digits before the point and four zeros after
it; beyond that it is written with an exponent, which always has a sign. -/
def realStyle : PodTarget.Number.Style := ⟨some 16, some 4, "+", .toEven⟩

def Number.text : Number → String
  | .whole i => toString i
  | .real x => x.text realStyle

def newline (level : Nat) : List Char := '\n' :: List.replicate (2 * level) ' '

def enclosed (opening closing : Char) (parts : List (List Char)) (level : Nat) : List Char :=
  match parts with
  | [] => [opening, closing]
  | parts =>
    opening :: ((parts.map (newline (level + 1) ++ ·)).intersperse [',']).flatten ++
      newline level ++ [closing]

mutual

def Document.text : Nat → Document → List Char
  | _, .null => "null".toList
  | _, .boolean b => (if b then "true" else "false").toList
  | _, .number n => n.text.toList
  | _, .string s => quote s.toList
  | level, .array items => enclosed '[' ']' (itemTexts (level + 1) items) level
  | level, .object members => enclosed '\x7b' '\x7d' (memberTexts (level + 1) members) level
  | _, .valueless | _, .torn => []

def itemTexts : Nat → List Document → List (List Char)
  | _, [] => []
  | level, d :: ds => d.text level :: itemTexts level ds

def memberTexts : Nat → List (Option String × Document) → List (List Char)
  | _, [] => []
  | level, (k, d) :: ms =>
    (quote (k.getD "").toList ++ (':' :: ' ' :: d.text level)) :: memberTexts level ms

end

def Document.print (d : Document) : String := .ofList (d.text 0)

end PodTarget.Json
