import Mathlib.Logic.Relation
import PodTarget.Proofs.Delimiters
import PodTarget.Proofs.Indentation

/-! Neither the order nor the repetition of the items of a set shows in a text, however deep
in a node the set is. Items are told apart by their texts at level zero, and of several with
one text the first is kept, which may be any of them. It does not matter which: what is
written the same at level zero is written the same at each level, and is laid out the same
in a list, as the text of a literal, a number or a word is that of no other kind of node. -/

namespace PodTarget.Starlark

section Texts

variable {s t : List Char}

/-- Inside a literal a quote stands behind a backslash, so never behind a blank. -/
theorem escapes_ne_blank_quote {before after : List Char} :
    s.flatMap escape ≠ before ++ ' ' :: '"' :: after := by
  induction s generalizing before with
  | nil => simp
  | cons c s ih =>
    intro h
    rw [List.flatMap_cons, List.append_eq_append_iff] at h
    obtain ⟨rest, -, hrest⟩ | ⟨_ | ⟨d, rest⟩, hc, hrest⟩ := h
    · exact ih hrest
    · exact @ih [] hrest.symm
    -- The blank lies in the escape of `c`, so it is `c` and the quote begins the next escape.
    · obtain ⟨rfl, hrest⟩ := List.cons_eq_cons.1 hrest
      have hblank : ' ' = c := Decidable.byContradiction fun hne =>
        notMem_escape hne (by decide) (by decide) (by simp [hc])
      rw [← hblank, show escape ' ' = [' '] from rfl, List.singleton_eq_append_iff] at hc
      obtain ⟨-, rfl⟩ : before = [] ∧ rest = [] := by simpa using hc
      cases s with
      | nil => simp at hrest
      | cons c s => exact escape_append_ne c _ _ (by simpa using hrest.symm)

theorem quote_ne_blank_quote {before : List Char} : quote s ≠ before ++ ' ' :: quote t := by
  intro h
  cases before with
  | nil => simp [quote] at h
  | cons c before =>
    have hinside : s.flatMap escape ++ ['"'] =
        (before ++ ' ' :: '"' :: t.flatMap escape) ++ ['"'] := by
      simpa [quote] using (List.cons_eq_cons.1 h).2
    exact escapes_ne_blank_quote (List.append_cancel_right hinside)

end Texts

/-- The bracket that ends the text of a node. -/
def Node.closing? : Node → Option Char
  | .list _ | .set _ => some ']'
  | .dict _ => some '\x7d'
  | .call .. | .select _ | .load .. => some ')'
  | _ => Option.none

section Kinds

variable {n m : Node} {level : Nat}

theorem getLast?_block (opening closing : Char) (parts : List (Nat → List Char)) :
    (block opening closing parts level).getLast? = some closing := by
  simp [block, List.getLast?_cons]

theorem getLast?_bracketed (items : List Piece) : (bracketed items level).getLast? = some ']' := by
  obtain _ | ⟨item, _ | ⟨_, _⟩⟩ := items
  · rfl
  · rw [bracketed]
    split
    · simp [List.getLast?_cons]
    · exact getLast?_block ..
  · exact getLast?_block ..

theorem getLast?_braced (entries : List (Nat → List Char)) :
    (braced entries level).getLast? = some '\x7d' := by
  cases entries with
  | nil => rfl
  | cons => exact getLast?_block ..

theorem getLast?_parenthesized (spread : Bool) (args : List (Nat → List Char)) :
    (parenthesized spread args level).getLast? = some ')' := by
  cases spread with
  | true => exact getLast?_block ..
  | false => simp [parenthesized, List.getLast?_append, List.getLast?_cons]

theorem Node.getLast?_text {c : Char} (h : n.closing? = some c) :
    (n.text level).getLast? = some c := by
  cases n with
  | list | set =>
    rw [Node.text, getLast?_bracketed]
    exact h
  | dict =>
    rw [Node.text, getLast?_braced]
    exact h
  | call =>
    simp only [Node.text, List.getLast?_append, getLast?_parenthesized]
    exact h
  | select | load =>
    simp only [Node.text, List.getLast?_append, List.getLast?_singleton]
    exact h
  | empty | none | bool | int | str | expr => nomatch h

/-- Letters, digits and minus signs, as words and numbers are written. -/
def Word (s : List Char) : Prop := s ≠ [] ∧ ∀ c ∈ s, c.isAlphanum ∨ c = '-'

theorem word_int (i : Int) : Word (toString i).toList := by
  refine ⟨?_, fun c hc => (isDigit_or_of_mem_int hc).imp_left fun hd => ?_⟩
  · cases i with
    | ofNat m =>
      show m.repr.toList ≠ []
      rw [Nat.toList_repr]
      exact Nat.toDigits_ne_nil
    | negSucc m =>
      rw [show toString (Int.negSucc m) = "-" ++ (m + 1).repr from rfl, String.toList_append]
      exact List.cons_ne_nil _ _
  · rw [Char.isAlphanum, hd, Bool.or_true]

theorem Node.word_or_str (h : n.isScalar) : Word (n.text level) ∨ ∃ s, n = .str s := by
  cases n with
  | none => exact Or.inl (show Word ['N', 'o', 'n', 'e'] from ⟨by simp, by simp⟩)
  | bool b =>
    refine Or.inl ?_
    cases b with
    | true => exact show Word ['T', 'r', 'u', 'e'] from ⟨by simp, by simp⟩
    | false => exact show Word ['F', 'a', 'l', 's', 'e'] from ⟨by simp, by simp⟩
  | int i => exact Or.inl (word_int i)
  | str s => exact Or.inr ⟨s, rfl⟩
  | empty | list | set | dict | call | expr | select | load => nomatch h

theorem getLast?_quote (s : List Char) : (quote s).getLast? = some '"' := by
  simp [quote, List.getLast?_cons]

/-- Nothing that is written behind a blank ends a literal. -/
theorem Node.quote_ne_blank_text (n : Node) (s before : List Char) :
    quote s ≠ before ++ ' ' :: n.text level := by
  induction n using Node.induction generalizing before with
  | step n ih =>
    intro h
    -- The text ends in a quote, so it is a literal, or an operation with such a right side.
    have hlast : (n.text level).getLast? = some '"' := by
      have hends := congrArg List.getLast? h
      rw [getLast?_quote, List.getLast?_append, List.getLast?_cons] at hends
      cases htext : (n.text level).getLast? with
      | none => simp [htext] at hends
      | some c => simpa [htext] using hends.symm
    have hclosing {c : Char} (hc : n.closing? = some c) : c = '"' :=
      Option.some.inj ((getLast?_text hc).symm.trans hlast)
    have hscalar (hs : n.isScalar) : ∃ t, n = .str t :=
      (word_or_str hs).resolve_left fun hword =>
        absurd (hword.2 '"' (List.mem_of_getLast? hlast)) (by decide)
    cases n with
    | none | bool | int =>
      obtain ⟨t, ht⟩ := hscalar rfl
      cases ht
    | str t => exact quote_ne_blank_quote h
    | expr lhs op rhs =>
      refine ih rhs (by simp [children]) (before ++ ' ' :: lhs.text level ++ ' ' :: op.toList) ?_
      simpa [Node.text] using h
    | empty => cases hlast
    | list | set | dict | call | select | load => exact absurd (hclosing rfl) (by decide)

/-- What a literal, a number or a word is written as. -/
inductive ScalarText : List Char → Prop
  | word {s : List Char} (h : Word s) : ScalarText s
  | quoted (s : List Char) : ScalarText (quote s)

theorem ScalarText.ne_nil {s : List Char} (h : ScalarText s) : s ≠ [] := by
  cases h with
  | word h => exact h.1
  | quoted s => exact List.cons_ne_nil _ _

theorem ScalarText.getLast?_ne {s : List Char} (h : ScalarText s) {c : Char}
    (hc : c ∈ [')', ']', '\x7d']) : s.getLast? ≠ some c := by
  have hbracket : ∀ c ∈ [')', ']', '\x7d'], c ≠ '"' ∧ ¬(c.isAlphanum ∨ c = '-') := by simp
  intro hlast
  cases h with
  | word h => exact (hbracket c hc).2 (h.2 c (List.mem_of_getLast? hlast))
  | quoted s =>
    rw [getLast?_quote] at hlast
    exact (hbracket c hc).1 (Option.some.inj hlast).symm

theorem ScalarText.not_blank (n : Node) (before : List Char) :
    ¬ScalarText (before ++ ' ' :: n.text level) := by
  intro h
  generalize hs : before ++ ' ' :: n.text level = s at h
  cases h with
  | word h => exact absurd (h.2 ' ' (by simp [← hs])) (by decide)
  | quoted s => exact n.quote_ne_blank_text s before hs.symm

/-- From the text of a node it can be told whether a list of it alone stays on one line. -/
theorem Node.isScalar_iff : n.isScalar ↔ ScalarText (n.text level) := by
  refine ⟨fun h => ?_, fun h => ?_⟩
  · obtain hword | ⟨s, rfl⟩ := word_or_str h
    · exact .word hword
    · exact .quoted _
  have hclosing (c : Char) (hc : c ∈ [')', ']', '\x7d']) : n.closing? ≠ some c :=
    fun heq => h.getLast?_ne hc (getLast?_text heq)
  cases n with
  | none | bool | int | str => rfl
  | empty => exact absurd rfl h.ne_nil
  | list | set | dict | call | select | load => exact absurd rfl (hclosing _ (by decide))
  | expr lhs op rhs =>
    rw [Node.text] at h
    exact absurd h (ScalarText.not_blank rhs _)

theorem Node.isScalar_eq_of_text_eq (h : n.text level = m.text level) :
    n.isScalar = m.isScalar := by
  rw [Bool.eq_iff_iff, isScalar_iff, isScalar_iff, h]

/-- What is written the same at level zero is written the same everywhere. -/
theorem Node.piece_eq_of_text_eq (hn : n.NamesOnLines) (hm : m.NamesOnLines)
    (h : n.text 0 = m.text 0) : n.piece = m.piece := by
  have htext : n.text = m.text := by
    funext k
    rw [← Nat.zero_add k, hn.indents, hm.indents, h]
  rw [piece, piece, htext, isScalar_eq_of_text_eq h]

end Kinds

/-- A node with a gap, where one node right below it has been taken out. -/
inductive Frame
  | item (before after : List Node)
  | member (before after : List Node)
  | key (before : List (Node × Node)) (v : Node) (after : List (Node × Node))
  | value (before : List (Node × Node)) (k : Node) (after : List (Node × Node))
  | positional (function : String) (before after : List Arg)
  | named (function : String) (before : List Arg) (name : String) (after : List Arg)
  | left (op : String) (rhs : Node)
  | right (lhs : Node) (op : String)
  | branch (before : List (String × Node)) (condition : String) (after : List (String × Node))

def Frame.fill (f : Frame) (n : Node) : Node :=
  match f with
  | item before after => .list (before ++ n :: after)
  | member before after => .set (before ++ n :: after)
  | key before v after => .dict (before ++ (n, v) :: after)
  | value before k after => .dict (before ++ (k, n) :: after)
  | positional function before after => .call function (before ++ .positional n :: after)
  | named function before name after => .call function (before ++ .named name n :: after)
  | left op rhs => .expr n op rhs
  | right lhs op => .expr lhs op n
  | branch before condition after => .select (before ++ (condition, n) :: after)

/-- One set, at whatever depth, gets another list with the same items. -/
inductive Relists : Node → Node → Prop
  | set {items items' : List Node} (h : ∀ n, n ∈ items' ↔ n ∈ items) :
      Relists (.set items) (.set items')
  | inside {n m : Node} (f : Frame) (h : Relists n m) : Relists (f.fill n) (f.fill m)

namespace Frame

variable {n m : Node} (f : Frame)

theorem exists_children_fill : ∃ before after, ∀ n, (f.fill n).children = before ++ n :: after := by
  cases f with
  | item before after | member before after => exact ⟨before, after, fun _ => rfl⟩
  | key before v after =>
    exact ⟨before.flatMap fun e => [e.1, e.2], v :: after.flatMap fun e => [e.1, e.2],
      fun _ => by simp [fill, Node.children]⟩
  | value before k after =>
    exact ⟨(before.flatMap fun e => [e.1, e.2]) ++ [k], after.flatMap fun e => [e.1, e.2],
      fun _ => by simp [fill, Node.children]⟩
  | positional function before after | named function before name after =>
    exact ⟨before.map Arg.value, after.map Arg.value,
      fun _ => by simp [fill, Node.children, Arg.value]⟩
  | left op rhs => exact ⟨[], [rhs], fun _ => rfl⟩
  | right lhs op => exact ⟨[lhs], [], fun _ => rfl⟩
  | branch before condition after =>
    exact ⟨before.map (·.2), after.map (·.2), fun _ => by simp [fill, Node.children]⟩

theorem ownNames_fill : (f.fill n).ownNames = (f.fill m).ownNames := by
  cases f with
  | positional | named => simp [fill, Node.ownNames, Arg.name?, List.filterMap_cons]
  | _ => rfl

theorem namesOnLines_fill (h : (f.fill n).NamesOnLines) :
    n.NamesOnLines ∧ (m.NamesOnLines → (f.fill m).NamesOnLines) := by
  obtain ⟨before, after, hchildren⟩ := f.exists_children_fill
  obtain ⟨hown, hbelow⟩ := Node.namesOnLines_iff.1 h
  rw [hchildren] at hbelow
  refine ⟨hbelow n (by simp), fun hm => Node.namesOnLines_iff.2 ⟨?_, fun c hc => ?_⟩⟩
  · rwa [f.ownNames_fill]
  · rw [hchildren, List.mem_append, List.mem_cons] at hc
    rcases hc with hc | rfl | hc
    · exact hbelow c (by simp [hc])
    · exact hm
    · exact hbelow c (by simp [hc])

/-- What is put into a gap counts only as a piece. -/
theorem piece_fill (h : n.piece = m.piece) : (f.fill n).piece = (f.fill m).piece := by
  have htext : n.text = m.text := congrArg Piece.text h
  have hscalar (n : Node) : (f.fill n).isScalar = false := by cases f <;> rfl
  have hfill : (f.fill n).text = (f.fill m).text := by
    cases f with
    | item | member =>
      simp only [fill, Node.text, pieces_eq_map, List.map_append, List.map_cons, h]
    | key | value =>
      simp only [fill, Node.text, entryTexts_eq_map, List.map_append, List.map_cons, htext]
    | positional | named =>
      simp only [fill, Node.text, argTexts_eq_map, List.map_append, List.map_cons, Arg.text, htext,
        List.length_append, List.length_cons, List.any_append, List.any_cons, Arg.isNamed]
    | left | right => simp only [fill, Node.text, htext]
    | branch =>
      simp only [fill, Node.text, branchTexts_eq_map, List.map_append, List.map_cons, htext]
  rw [Node.piece, Node.piece, hscalar, hscalar, hfill]

end Frame

theorem Node.exists_fill_of_mem_children {n c : Node} (h : c ∈ n.children) :
    ∃ f : Frame, f.fill c = n := by
  cases n with
  | list items =>
    obtain ⟨before, after, rfl⟩ := List.append_of_mem h
    exact ⟨.item before after, rfl⟩
  | set items =>
    obtain ⟨before, after, rfl⟩ := List.append_of_mem h
    exact ⟨.member before after, rfl⟩
  | dict entries =>
    obtain ⟨e, he, hc⟩ := List.mem_flatMap.1 h
    obtain ⟨before, after, rfl⟩ := List.append_of_mem he
    obtain rfl | rfl : c = e.1 ∨ c = e.2 := by simpa using hc
    · exact ⟨.key before e.2 after, rfl⟩
    · exact ⟨.value before e.1 after, rfl⟩
  | call function args =>
    obtain ⟨a, ha, rfl⟩ := List.mem_map.1 h
    obtain ⟨before, after, rfl⟩ := List.append_of_mem ha
    cases a with
    | positional v => exact ⟨.positional function before after, rfl⟩
    | named name v => exact ⟨.named function before name after, rfl⟩
  | expr lhs op rhs =>
    obtain rfl | rfl : c = lhs ∨ c = rhs := by simpa [children] using h
    · exact ⟨.left op rhs, rfl⟩
    · exact ⟨.right lhs op, rfl⟩
  | select branches =>
    obtain ⟨b, hb, rfl⟩ := List.mem_map.1 h
    obtain ⟨before, after, rfl⟩ := List.append_of_mem hb
    exact ⟨.branch before b.1 after, rfl⟩
  | empty | none | bool | int | str | load => exact absurd h List.not_mem_nil

/-- There is no place in a node where a set cannot get another list. -/
theorem Node.Occurs.exists_relists {n : Node} {items items' : List Node}
    (ho : Node.Occurs (.set items) n) (h : ∀ n, n ∈ items' ↔ n ∈ items) :
    ∃ m, Relists n m ∧ Node.Occurs (.set items') m := by
  induction ho with
  | here => exact ⟨_, .set h, .here⟩
  | inside hc _ ih =>
    obtain ⟨m, hstep, hm⟩ := ih
    obtain ⟨f, rfl⟩ := Node.exists_fill_of_mem_children hc
    obtain ⟨before, after, hchildren⟩ := f.exists_children_fill
    exact ⟨f.fill m, .inside f hstep, .inside (by simp [hchildren]) hm⟩

section Sets

variable {n m : Node}

theorem pieces_eq_of_text_eq {items : List Node} (h : ∀ n ∈ items, n.NamesOnLines) :
    ∀ p ∈ pieces items, ∀ q ∈ pieces items,
      String.ofList (p.text 0) = String.ofList (q.text 0) → p = q := by
  rw [pieces_eq_map]
  intro p hp q hq heq
  obtain ⟨n, hn, rfl⟩ := List.mem_map.1 hp
  obtain ⟨m, hm, rfl⟩ := List.mem_map.1 hq
  exact Node.piece_eq_of_text_eq (h n hn) (h m hm) (String.ofList_inj.1 heq)

theorem piece_set_congr {items items' : List Node} (hn : (Node.set items).NamesOnLines)
    (h : ∀ n, n ∈ items' ↔ n ∈ items) : (Node.set items').piece = (Node.set items).piece := by
  have hitems : ∀ n ∈ items, n.NamesOnLines := (Node.namesOnLines_iff.1 hn).2
  have hpieces : ∀ p, p ∈ pieces items ↔ p ∈ pieces items' := by
    simp only [pieces_eq_map, List.mem_map, h, implies_true]
  rw [Node.piece, Node.piece, Node.text, Node.text, inOrder, inOrder,
    sortedBy_congr (pieces_eq_of_text_eq hitems) hpieces]
  rfl

/-- What one step keeps. -/
theorem Relists.keeps (h : Relists n m) (hn : n.NamesOnLines) :
    m.NamesOnLines ∧ m.piece = n.piece := by
  induction h with
  | set h =>
    refine ⟨?_, piece_set_congr hn h⟩
    obtain ⟨hown, hitems⟩ := Node.namesOnLines_iff.1 hn
    exact Node.namesOnLines_iff.2 ⟨hown, fun c hc => hitems c ((h c).1 hc)⟩
  | inside f _ ih =>
    obtain ⟨hbelow, hfill⟩ := f.namesOnLines_fill hn
    obtain ⟨hm, hpiece⟩ := ih hbelow
    exact ⟨hfill hm, f.piece_fill hpiece⟩

/-- The order and the repetition of the items of the sets in a node, at whatever depth, do not
show in its text. -/
theorem render_of_relists (hn : n.NamesOnLines) (h : Relation.ReflTransGen Relists n m) :
    m.render = n.render := by
  have hkept : m.NamesOnLines ∧ m.piece = n.piece := by
    induction h with
    | refl => exact ⟨hn, rfl⟩
    | tail _ hstep ih =>
      obtain ⟨hnames, hpiece⟩ := hstep.keeps ih.1
      exact ⟨hnames, hpiece.trans ih.2⟩
  exact congrArg (fun p => String.ofList (p.text 0)) hkept.2

end Sets

def abList : Node := .strings ["a", "b"]

/-- A set of the two as a set, and of the list of them: both are written the same. -/
def twoWays : Node :=
  .call "filegroup" [.named "srcs" (.set [.set [.str "b", .str "a"], abList])]

def twoWaysRelisted : Node :=
  .call "filegroup" [.named "srcs" (.set [abList, .set [.str "a", .str "b", .str "a"], abList])]

theorem relists_twoWays : Relation.ReflTransGen Relists twoWays twoWaysRelisted := by
  let srcs := Frame.named "filegroup" [] "srcs" []
  have houter : Relists twoWays (srcs.fill (.set [abList, .set [.str "b", .str "a"], abList])) :=
    .inside srcs (.set fun n => by simp [or_comm])
  have hinner : Relists (srcs.fill (.set [abList, .set [.str "b", .str "a"], abList]))
      twoWaysRelisted :=
    .inside srcs (.inside (.member [abList] [abList]) (.set fun n => by simp [or_comm]))
  exact .tail (.single houter) hinner

theorem namesOnLines_twoWays : twoWays.NamesOnLines := by
  have hset : (Node.set [.str "b", .str "a"]).NamesOnLines :=
    .of_children rfl (by simpa [Node.children] using ⟨.str "b", .str "a"⟩)
  have hlist : abList.NamesOnLines :=
    .of_children rfl (by simpa [Node.children, abList, Node.strings] using ⟨.str "a", .str "b"⟩)
  have hboth : (Node.set [.set [.str "b", .str "a"], abList]).NamesOnLines :=
    .of_children rfl (by simpa [Node.children] using ⟨hset, hlist⟩)
  refine Node.namesOnLines_iff.2 ⟨by decide, ?_⟩
  simpa [twoWays, Node.children, Arg.value] using hboth

theorem render_of_relists_twoWays : twoWays.NamesOnLines ∧
    Relation.ReflTransGen Relists twoWays twoWaysRelisted ∧
    twoWaysRelisted.render = twoWays.render ∧
    twoWays.render =
      "filegroup(srcs = [\n    [\n        \"a\",\n        \"b\",\n    ],\n])" :=
  ⟨namesOnLines_twoWays, relists_twoWays, render_of_relists namesOnLines_twoWays relists_twoWays,
    by decide +kernel⟩

end PodTarget.Starlark
