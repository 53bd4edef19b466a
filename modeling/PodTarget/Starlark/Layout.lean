import PodTarget.Collections
import PodTarget.Starlark.Node
import PodTarget.Starlark.Quoted

/-! The text of a node. It depends on the level of indentation only through
the blanks after its line breaks. A set is written as the list of its items in
the order of their texts, each text once. -/

namespace PodTarget.Starlark

def lineBreak (level : Nat) : List Char := '\n' :: List.replicate (4 * level) ' '

/-- An item ready to be written: whether a list of it alone stays on one line,
and its text at each level. -/
structure Piece where
  inline : Bool
  text : Nat → List Char

/-- Each on a line of its own between brackets, with a comma after it. -/
def block (opening closing : Char) (parts : List (Nat → List Char)) (level : Nat) : List Char :=
  opening :: ((parts.flatMap fun p => lineBreak (level + 1) ++ p (level + 1) ++ [',']) ++
    (lineBreak level ++ [closing]))

def bracketed (items : List Piece) (level : Nat) : List Char :=
  match items with
  | [] => ['[', ']']
  | [item] =>
    if item.inline then '[' :: (item.text level ++ [']']) else block '[' ']' [item.text] level
  | items => block '[' ']' (items.map (·.text)) level

def braced (entries : List (Nat → List Char)) (level : Nat) : List Char :=
  match entries with
  | [] => ['\x7b', '\x7d']
  | entries => block '\x7b' '\x7d' entries level

def pair (key value : Nat → List Char) (level : Nat) : List Char :=
  key level ++ (':' :: ' ' :: value level)

/-- Arguments are put on lines of their own where there is more than one and
one of them is named. -/
def parenthesized (spread : Bool) (args : List (Nat → List Char)) (level : Nat) : List Char :=
  if spread then block '(' ')' args level
  else '(' :: ((args.map (· level)).intersperse [',', ' ']).flatten ++ [')']

/-- The items in the order of their texts, the first of those with one text. -/
def inOrder (items : List Piece) : List Piece := sortedBy (fun p => .ofList (p.text 0)) items

def Arg.isNamed : Arg → Bool
  | .named .. => true
  | .positional _ => false

def Node.isScalar : Node → Bool
  | .none | .bool _ | .int _ | .str _ => true
  | _ => false

mutual

def Node.text : Node → Nat → List Char
  | .empty => fun _ => []
  | .none => fun _ => ['N', 'o', 'n', 'e']
  | .bool b => fun _ => if b then ['T', 'r', 'u', 'e'] else ['F', 'a', 'l', 's', 'e']
  | .int n => fun _ => (toString n).toList
  | .str s => fun _ => quote s.toList
  | .list items => bracketed (pieces items)
  | .set items => bracketed (inOrder (pieces items))
  | .dict entries => braced (entryTexts entries)
  | .call function args => fun level =>
    function.toList ++
      parenthesized (args.length > 1 && args.any Arg.isNamed) (argTexts args) level
  | .expr lhs op rhs => fun level =>
    lhs.text level ++ (' ' :: op.toList) ++ (' ' :: rhs.text level)
  | .select branches => fun level =>
    ['s', 'e', 'l', 'e', 'c', 't', '('] ++ braced (branchTexts branches) level ++ [')']
  | .load file symbols => fun _ =>
    ['l', 'o', 'a', 'd', '('] ++ quote file.toList ++
      symbols.flatMap (fun s => [',', ' '] ++ quote s.toList) ++ [')']

def pieces : List Node → List Piece
  | [] => []
  | n :: ns => ⟨n.isScalar, n.text⟩ :: pieces ns

def entryTexts : List (Node × Node) → List (Nat → List Char)
  | [] => []
  | (k, v) :: es => pair k.text v.text :: entryTexts es

def branchTexts : List (String × Node) → List (Nat → List Char)
  | [] => []
  | (k, v) :: bs => pair (fun _ => quote k.toList) v.text :: branchTexts bs

def argTexts : List Arg → List (Nat → List Char)
  | [] => []
  | a :: as => a.text :: argTexts as

def Arg.text : Arg → Nat → List Char
  | .positional v => v.text
  | .named name v => fun level => name.toList ++ ([' ', '=', ' '] ++ v.text level)

end

def Node.render (n : Node) : String := .ofList (n.text 0)

/-- A blank line between statements, and a line break after the last. -/
def BuildFile.render (f : BuildFile) : String :=
  .ofList (((f.statements.map (·.text 0)).intersperse ['\n', '\n']).flatten ++ ['\n'])

end PodTarget.Starlark
