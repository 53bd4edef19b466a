/-! The part of Starlark that build files are written in. The empty node is no value at
all: a named argument that holds it is left out. Order and repetition of the items of a
set mean nothing. A choice by configuration has conditions with the value for each. -/

namespace PodTarget.Starlark

mutual

inductive Node
  | empty
  | none
  | bool (value : Bool)
  | int (value : Int)
  | str (value : String)
  | list (items : List Node)
  | set (items : List Node)
  | dict (entries : List (Node × Node))
  | call (function : String) (args : List Arg)
  | expr (lhs : Node) (op : String) (rhs : Node)
  | select (branches : List (String × Node))
  | load (file : String) (symbols : List String)

inductive Arg
  | positional (value : Node)
  | named (name : String) (value : Node)

end

def Arg.value : Arg → Node
  | positional v => v
  | named _ v => v

namespace Node

/-- Calls, expressions, choices and literals other than the empty text are
never empty. -/
def isEmpty : Node → Bool
  | empty => true
  | str s => s.isEmpty
  | list items => items.isEmpty
  | set items => items.isEmpty
  | dict entries => entries.isEmpty
  | _ => false

def add (lhs rhs : Node) : Node := expr lhs "+" rhs

def strings (items : List String) : Node := list (items.map str)

/-- A call without the named arguments whose value is empty. -/
def callWith (function : String) (args : List Arg) : Node :=
  call function <| args.filter fun
    | .positional _ => true
    | .named _ v => !v.isEmpty

def argument? (name : String) : Node → Option Node
  | call _ args => args.findSome? fun
    | .named n v => if n = name then some v else .none
    | .positional _ => .none
  | _ => .none

end Node

structure BuildFile where
  statements : List Node

namespace BuildFile

def empty : BuildFile := ⟨[]⟩

def push (f : BuildFile) (n : Node) : BuildFile := ⟨f.statements ++ [n]⟩

end BuildFile

end PodTarget.Starlark
