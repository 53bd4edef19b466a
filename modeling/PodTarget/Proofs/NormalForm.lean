import PodTarget.Starlark.Layout

/-! The normal form of a node: every set in it, at whatever depth, is put as the
list of its items in the order of their texts, each text once. This is how sets
are written, so a node and its normal form have the same text. -/

namespace PodTarget.Starlark

mutual

def Node.normal : Node → Node
  | .empty => .empty
  | .none => .none
  | .bool b => .bool b
  | .int n => .int n
  | .str s => .str s
  | .list items => .list (normalAll items)
  | .set items => .list (sortedBy Node.render (normalAll items))
  | .dict entries => .dict (normalEntries entries)
  | .call function args => .call function (normalArgs args)
  | .expr lhs op rhs => .expr lhs.normal op rhs.normal
  | .select branches => .select (normalBranches branches)
  | .load file symbols => .load file symbols

def normalAll : List Node → List Node
  | [] => []
  | n :: ns => n.normal :: normalAll ns

def normalEntries : List (Node × Node) → List (Node × Node)
  | [] => []
  | (k, v) :: es => (k.normal, v.normal) :: normalEntries es

def normalBranches : List (String × Node) → List (String × Node)
  | [] => []
  | (k, v) :: bs => (k, v.normal) :: normalBranches bs

def normalArgs : List Arg → List Arg
  | [] => []
  | a :: as => a.normal :: normalArgs as

def Arg.normal : Arg → Arg
  | .positional v => .positional v.normal
  | .named name v => .named name v.normal

end

section Lists

variable {ns : List Node} {es : List (Node × Node)} {bs : List (String × Node)} {as : List Arg}

theorem normalAll_eq_map : normalAll ns = ns.map Node.normal := by
  induction ns with
  | nil => rw [normalAll, List.map_nil]
  | cons n ns ih => rw [normalAll, List.map_cons, ih]

theorem normalEntries_eq_map : normalEntries es = es.map fun e => (e.1.normal, e.2.normal) := by
  induction es with
  | nil => rw [normalEntries, List.map_nil]
  | cons e es ih => rw [normalEntries, List.map_cons, ih]

theorem normalBranches_eq_map : normalBranches bs = bs.map fun b => (b.1, b.2.normal) := by
  induction bs with
  | nil => rw [normalBranches, List.map_nil]
  | cons b bs ih => rw [normalBranches, List.map_cons, ih]

theorem normalArgs_eq_map : normalArgs as = as.map Arg.normal := by
  induction as with
  | nil => rw [normalArgs, List.map_nil]
  | cons a as ih => rw [normalArgs, List.map_cons, ih]

def Node.piece (n : Node) : Piece := ⟨n.isScalar, n.text⟩

theorem pieces_eq_map : pieces ns = ns.map Node.piece := by
  induction ns with
  | nil => rw [pieces, List.map_nil]
  | cons n ns ih => rw [pieces, List.map_cons, ih, Node.piece]

theorem entryTexts_eq_map : entryTexts es = es.map fun e => pair e.1.text e.2.text := by
  induction es with
  | nil => rw [entryTexts, List.map_nil]
  | cons e es ih => rw [entryTexts, List.map_cons, ih]

theorem branchTexts_eq_map :
    branchTexts bs = bs.map fun b => pair (fun _ => quote b.1.toList) b.2.text := by
  induction bs with
  | nil => rw [branchTexts, List.map_nil]
  | cons b bs ih => rw [branchTexts, List.map_cons, ih]

theorem argTexts_eq_map : argTexts as = as.map Arg.text := by
  induction as with
  | nil => rw [argTexts, List.map_nil]
  | cons a as ih => rw [argTexts, List.map_cons, ih]

/-- A set is written as the list of its items in order. -/
theorem inOrder_pieces : inOrder (pieces ns) = pieces (sortedBy Node.render ns) := by
  rw [pieces_eq_map, pieces_eq_map, inOrder, sortedBy_map]
  rfl

theorem Arg.isNamed_normal (a : Arg) : a.normal.isNamed = a.isNamed := by
  cases a <;> rw [Arg.normal, isNamed, isNamed]

theorem Node.isScalar_normal (n : Node) : n.normal.isScalar = n.isScalar := by
  cases n <;> simp [normal, isScalar]

end Lists

mutual

theorem Node.text_normal : ∀ n : Node, n.normal.text = n.text
  | .empty | .none | .bool _ | .int _ | .str _ | .load .. => by rw [Node.normal]
  | .list items => by rw [Node.normal, Node.text, Node.text, pieces_normalAll items]
  | .set items => by
    rw [Node.normal, Node.text, Node.text, ← inOrder_pieces, pieces_normalAll items]
  | .dict entries => by rw [Node.normal, Node.text, Node.text, entryTexts_normalEntries entries]
  | .call function args => by
    have hnamed : args.any (Arg.isNamed ∘ Arg.normal) = args.any Arg.isNamed :=
      congrArg args.any (funext Arg.isNamed_normal)
    rw [Node.normal, Node.text, Node.text, argTexts_normalArgs args, normalArgs_eq_map,
      List.length_map, List.any_map, hnamed]
  | .expr lhs op rhs => by rw [Node.normal, Node.text, Node.text, lhs.text_normal, rhs.text_normal]
  | .select branches => by
    rw [Node.normal, Node.text, Node.text, branchTexts_normalBranches branches]

theorem pieces_normalAll : ∀ ns : List Node, pieces (normalAll ns) = pieces ns
  | [] => by rw [normalAll]
  | n :: ns => by
    rw [normalAll, pieces, pieces, n.text_normal, n.isScalar_normal, pieces_normalAll ns]

theorem entryTexts_normalEntries :
    ∀ es : List (Node × Node), entryTexts (normalEntries es) = entryTexts es
  | [] => by rw [normalEntries]
  | (k, v) :: es => by
    rw [normalEntries, entryTexts, entryTexts, k.text_normal, v.text_normal,
      entryTexts_normalEntries es]

theorem branchTexts_normalBranches :
    ∀ bs : List (String × Node), branchTexts (normalBranches bs) = branchTexts bs
  | [] => by rw [normalBranches]
  | (k, v) :: bs => by
    rw [normalBranches, branchTexts, branchTexts, v.text_normal, branchTexts_normalBranches bs]

theorem argTexts_normalArgs : ∀ as : List Arg, argTexts (normalArgs as) = argTexts as
  | [] => by rw [normalArgs]
  | a :: as => by rw [normalArgs, argTexts, argTexts, a.text_normal, argTexts_normalArgs as]

theorem Arg.text_normal : ∀ a : Arg, a.normal.text = a.text
  | .positional v => by rw [Arg.normal, Arg.text, Arg.text, v.text_normal]
  | .named name v => by rw [Arg.normal, Arg.text, Arg.text, v.text_normal]

end

end PodTarget.Starlark
