import PodTarget.Proofs.Expressions
import PodTarget.Proofs.Literals

/-! What the level of indentation changes in the text of a node: after each line break there
are four more blanks for each level, and nothing else. A literal has no line break of its
own, so this holds of every node in which no name and no operator has one. -/

namespace PodTarget.Starlark

open Text

/-- A text with the blanks of `k` more levels after each line break. -/
def indent (k : Nat) (s : List Char) : List Char :=
  s.flatMap fun c => if c = '\n' then lineBreak k else [c]

section Texts

variable {k : Nat} {s t : List Char}

theorem indent_append : indent k (s ++ t) = indent k s ++ indent k t := List.flatMap_append

theorem indent_of_notMem (h : '\n' ∉ s) : indent k s = s := by
  induction s with
  | nil => rfl
  | cons c s ih =>
    rw [List.mem_cons, not_or] at h
    rw [indent, List.flatMap_cons, ← indent, ih h.2, if_neg (Ne.symm h.1)]
    rfl

theorem indent_lineBreak (j k : Nat) : indent k (lineBreak j) = lineBreak (j + k) := by
  have hblanks : '\n' ∉ List.replicate (4 * j) ' ' := fun h =>
    absurd (List.eq_of_mem_replicate h) (by decide)
  rw [lineBreak, indent, List.flatMap_cons, ← indent, indent_of_notMem hblanks, if_pos rfl,
    lineBreak, lineBreak, List.cons_append, List.replicate_append_replicate, ← Nat.mul_add,
    Nat.add_comm]

theorem isDigit_or_of_mem_int {n : Int} {c : Char} (h : c ∈ (toString n).toList) :
    c.isDigit ∨ c = '-' := by
  have digits (m : Nat) (hc : c ∈ m.repr.toList) : c.isDigit := by
    rw [Nat.toList_repr] at hc
    exact Nat.isDigit_of_mem_toDigits (by decide) (by decide) hc
  cases n with
  | ofNat m => exact Or.inl (digits m h)
  | negSucc m =>
    rw [show toString (Int.negSucc m) = "-" ++ (m + 1).repr from rfl, String.toList_append,
      List.mem_append] at h
    rcases h with h | h
    · exact Or.inr (List.mem_singleton.1 h)
    · exact Or.inl (digits _ h)

theorem notMem_int {n : Int} {c : Char} (hdigit : c.isDigit = false) (hminus : c ≠ '-') :
    c ∉ (toString n).toList := by
  intro h
  rcases isDigit_or_of_mem_int h with h | h
  · exact absurd h (by simp [hdigit])
  · exact hminus h

end Texts

/-- Writing at a higher level adds blanks after the line breaks and does nothing else. -/
def Indents (p : Nat → List Char) : Prop := ∀ j k, p (j + k) = indent k (p j)

namespace Indents

variable {p q : Nat → List Char}

theorem const {s : List Char} (h : '\n' ∉ s) : Indents fun _ => s :=
  fun _ _ => (indent_of_notMem h).symm

theorem append (hp : Indents p) (hq : Indents q) : Indents fun level => p level ++ q level := by
  intro j k
  rw [indent_append, ← hp, ← hq]

theorem lineBreak : Indents lineBreak := fun j k => (indent_lineBreak j k).symm

theorem succ (hp : Indents p) : Indents fun level => p (level + 1) := by
  intro j k
  show p (j + k + 1) = _
  rw [Nat.add_right_comm, hp]

theorem flatMap {α : Type} {items : List α} {f : α → Nat → List Char}
    (h : ∀ a ∈ items, Indents (f a)) : Indents fun level => items.flatMap (f · level) := by
  induction items with
  | nil => exact fun _ _ => rfl
  | cons a items ih =>
    rw [List.forall_mem_cons] at h
    exact h.1.append (ih h.2)

theorem cons (c : Char) (hc : c ≠ '\n') (hp : Indents p) : Indents fun level => c :: p level :=
  (const (s := [c]) (by simpa using hc.symm)).append hp

theorem block {opening closing : Char} {parts : List (Nat → List Char)} (ho : opening ≠ '\n')
    (hc : closing ≠ '\n') (h : ∀ p ∈ parts, Indents p) :
    Indents (block opening closing parts) := by
  refine cons opening ho (append (flatMap fun p hp => ?_) (lineBreak.append (const ?_)))
  · exact (lineBreak.succ.append (h p hp).succ).append (const (by decide))
  · simpa using hc.symm

theorem bracketed {items : List Piece} (h : ∀ p ∈ items, Indents p.text) :
    Indents (bracketed items) := by
  have hblock : Indents (Starlark.block '[' ']' (items.map (·.text))) := by
    refine block (by decide) (by decide) fun p hp => ?_
    obtain ⟨item, hitem, rfl⟩ := List.mem_map.1 hp
    exact h item hitem
  obtain _ | ⟨item, _ | ⟨_, _⟩⟩ := items
  · exact const (by decide)
  · cases hinline : item.inline with
    | true =>
      have hitem := (h item List.mem_cons_self).append (const (s := [']']) (by decide))
      simpa only [Indents, Starlark.bracketed, hinline, if_true] using hitem.cons '[' (by decide)
    | false =>
      simpa only [Indents, Starlark.bracketed, hinline, Bool.false_eq_true, if_false,
        List.map_singleton] using hblock
  · exact hblock

theorem braced {entries : List (Nat → List Char)} (h : ∀ p ∈ entries, Indents p) :
    Indents (braced entries) := by
  cases entries with
  | nil => exact const (by decide)
  | cons e entries => exact block (by decide) (by decide) h

theorem pair (hp : Indents p) (hq : Indents q) : Indents (pair p q) :=
  hp.append ((hq.cons ' ' (by decide)).cons ':' (by decide))

theorem separated {parts : List (Nat → List Char)} (h : ∀ p ∈ parts, Indents p) :
    Indents fun level => ((parts.map (· level)).intersperse [',', ' ']).flatten := by
  induction parts with
  | nil => exact fun _ _ => rfl
  | cons p parts ih =>
    rw [List.forall_mem_cons] at h
    cases parts with
    | nil => simpa using h.1
    | cons q parts =>
      have hrest := (h.1.append (const (s := [',', ' ']) (by decide))).append (ih h.2)
      simpa using hrest

theorem parenthesized {spread : Bool} {args : List (Nat → List Char)} (h : ∀ p ∈ args, Indents p) :
    Indents (parenthesized spread args) := by
  cases spread with
  | true => exact block (by decide) (by decide) h
  | false => exact ((separated h).cons '(' (by decide)).append (const (by decide))

end Indents

theorem Node.sizeOf_lt_of_mem_children {n c : Node} (h : c ∈ n.children) : sizeOf c < sizeOf n := by
  cases n with
  | list items | set items =>
    have hc : sizeOf c < sizeOf items := List.sizeOf_lt_of_mem h
    simp only [list.sizeOf_spec, set.sizeOf_spec]
    omega
  | dict entries =>
    obtain ⟨e, he, hc⟩ := List.mem_flatMap.1 h
    have hentry := List.sizeOf_lt_of_mem he
    have hpair : sizeOf e = 1 + sizeOf e.1 + sizeOf e.2 := rfl
    rw [dict.sizeOf_spec]
    rcases List.mem_cons.1 hc with rfl | hc
    · omega
    · rw [List.mem_singleton.1 hc]
      omega
  | call function args =>
    obtain ⟨a, ha, rfl⟩ := List.mem_map.1 h
    have harg := List.sizeOf_lt_of_mem ha
    have hvalue : sizeOf a.value < sizeOf a := by
      cases a <;> simp only [Arg.value, Arg.positional.sizeOf_spec, Arg.named.sizeOf_spec] <;> omega
    rw [call.sizeOf_spec]
    omega
  | expr lhs op rhs =>
    rw [expr.sizeOf_spec]
    rcases List.mem_cons.1 h with rfl | h
    · omega
    · rw [List.mem_singleton.1 h]
      omega
  | select branches =>
    obtain ⟨b, hb, rfl⟩ := List.mem_map.1 h
    have hbranch := List.sizeOf_lt_of_mem hb
    have hpair : sizeOf b = 1 + sizeOf b.1 + sizeOf b.2 := rfl
    rw [select.sizeOf_spec]
    omega
  | empty | none | bool | int | str | load => exact absurd h List.not_mem_nil

/-- What holds of a node as soon as it holds of the nodes right below it, holds of all. -/
theorem Node.induction {motive : Node → Prop}
    (step : ∀ n, (∀ c ∈ n.children, motive c) → motive n) (n : Node) : motive n :=
  step n fun c _ => induction step c
termination_by sizeOf n
decreasing_by exact sizeOf_lt_of_mem_children ‹_›

def Arg.name? : Arg → Option String
  | .positional _ => none
  | .named name _ => some name

/-- What a node itself adds to a text as it stands: the name of a call and those of its
arguments, and an operator. -/
def Node.ownNames : Node → List String
  | .call function args => function :: args.filterMap Arg.name?
  | .expr _ op _ => [op]
  | _ => []

/-- No name and no operator has a line break in it, at whatever depth. -/
def Node.NamesOnLines (n : Node) : Prop :=
  ∀ m, Node.Occurs m n → ∀ name ∈ m.ownNames, '\n' ∉ name.toList

theorem Node.namesOnLines_iff {n : Node} :
    n.NamesOnLines ↔
      (∀ name ∈ n.ownNames, '\n' ∉ name.toList) ∧ ∀ c ∈ n.children, c.NamesOnLines := by
  constructor
  · exact fun h => ⟨h n .here, fun c hc m hm => h m (.inside hc hm)⟩
  · rintro ⟨hown, hchildren⟩ m hm
    cases hm with
    | here => exact hown
    | inside hc hm => exact hchildren _ hc m hm

theorem Node.NamesOnLines.of_children {n : Node} (hown : n.ownNames = [])
    (h : ∀ c ∈ n.children, c.NamesOnLines) : n.NamesOnLines :=
  Node.namesOnLines_iff.2 ⟨by simp [hown], h⟩

theorem Node.NamesOnLines.str (s : String) : (Node.str s).NamesOnLines :=
  .of_children rfl (List.forall_mem_nil _)

/-- A node is written at a higher level as it is written at a lower one, with more blanks
after the line breaks. -/
theorem Node.NamesOnLines.indents {n : Node} (h : n.NamesOnLines) : Indents n.text := by
  induction n using Node.induction with
  | step n ih =>
    obtain ⟨hown, hchildren⟩ := Node.namesOnLines_iff.1 h
    replace ih : ∀ c ∈ n.children, Indents c.text := fun c hc => ih c hc (hchildren c hc)
    have all {items : List Node} (h : ∀ c ∈ items, Indents c.text) :
        ∀ p ∈ pieces items, Indents p.text := by
      intro p hp
      rw [pieces_eq_map] at hp
      obtain ⟨c, hc, rfl⟩ := List.mem_map.1 hp
      exact h c hc
    cases n with
    | empty => exact fun _ _ => rfl
    | none => exact .const (by decide)
    | bool b => exact .const (by cases b <;> decide)
    | int n => exact .const (notMem_int (by decide) (by decide))
    | str s => exact .const (newline_notMem_quote _)
    | list items => rw [Node.text]; exact .bracketed (all ih)
    | set items =>
      rw [Node.text]
      exact .bracketed fun p hp => all ih p (mem_of_mem_sortedBy hp)
    | dict entries =>
      rw [Node.text, entryTexts_eq_map]
      refine .braced fun p hp => ?_
      obtain ⟨e, he, rfl⟩ := List.mem_map.1 hp
      have hentry (c : Node) (hc : c ∈ [e.1, e.2]) : Indents c.text :=
        ih c (List.mem_flatMap.2 ⟨e, he, hc⟩)
      exact .pair (hentry e.1 (by simp)) (hentry e.2 (by simp))
    | call function args =>
      rw [Node.text, argTexts_eq_map]
      refine .append (.const (hown _ List.mem_cons_self)) (.parenthesized fun p hp => ?_)
      obtain ⟨a, ha, rfl⟩ := List.mem_map.1 hp
      have hvalue : Indents a.value.text := ih _ (List.mem_map_of_mem ha)
      cases a with
      | positional v => rw [Arg.text]; exact hvalue
      | named name v =>
        have hname : name ∈ args.filterMap Arg.name? := List.mem_filterMap.2 ⟨_, ha, rfl⟩
        rw [Arg.text]
        exact .append (.const (hown name (List.mem_cons_of_mem _ hname)))
          (.append (.const (by decide)) hvalue)
    | expr lhs op rhs =>
      have hop : '\n' ∉ ' ' :: op.toList := by
        simpa using hown op (List.mem_singleton_self op)
      rw [Node.text]
      exact .append (.append (ih lhs (by simp [Node.children])) (.const hop))
        (.cons ' ' (by decide) (ih rhs (by simp [Node.children])))
    | select branches =>
      rw [Node.text, branchTexts_eq_map]
      refine .append (.append (.const (by decide)) (.braced fun p hp => ?_)) (.const (by decide))
      obtain ⟨b, hb, rfl⟩ := List.mem_map.1 hp
      exact .pair (.const (newline_notMem_quote _)) (ih b.2 (List.mem_map_of_mem hb))
    | load file symbols =>
      rw [Node.text]
      refine .const ?_
      simp [newline_notMem_quote]

/-- A node is written at each level as it is at level zero, with four blanks for each level
put in behind every line break. -/
theorem Node.text_of_level {n : Node} (h : n.NamesOnLines) (k : Nat) :
    n.text k =
      (n.text 0).flatMap fun c => if c = '\n' then '\n' :: List.replicate (4 * k) ' ' else [c] := by
  have hindent : n.text (0 + k) = indent k (n.text 0) := h.indents 0 k
  rw [Nat.zero_add] at hindent
  exact hindent

/-- A set in a choice in a call, with a line break in a literal of the set. -/
def branching : Node :=
  .call "f" [.named "a" (.select [("c", .set [.none, .str "y\n"])]), .positional .none]

theorem namesOnLines_branching : branching.NamesOnLines := by
  have hnone : Node.none.NamesOnLines := .of_children rfl (List.forall_mem_nil _)
  have hset : (Node.set [.none, .str "y\n"]).NamesOnLines :=
    .of_children rfl (by simpa [Node.children] using ⟨hnone, .str "y\n"⟩)
  have hselect : (Node.select [("c", .set [.none, .str "y\n"])]).NamesOnLines :=
    .of_children rfl (by simpa [Node.children] using hset)
  refine Node.namesOnLines_iff.2 ⟨by decide, ?_⟩
  simpa [branching, Node.children, Arg.value] using ⟨hselect, hnone⟩

theorem Node.text_of_level_branching : branching.NamesOnLines ∧
    branching.text 2 = (branching.text 0).flatMap
      (fun c => if c = '\n' then '\n' :: List.replicate 8 ' ' else [c]) ∧
    branching.render = "f(\n    a = select(\x7b\n        \"c\": [\n            \"y\\n\",\n" ++
      "            None,\n        ],\n    \x7d),\n    None,\n)" :=
  ⟨namesOnLines_branching, Node.text_of_level namesOnLines_branching 2, by decide +kernel⟩

/-- A line break in a name is not followed by blanks. -/
example : (Node.call "a\nb" []).text 1 ≠ indent 1 ((Node.call "a\nb" []).text 0) := by
  decide +kernel

end PodTarget.Starlark
