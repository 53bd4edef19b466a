import PodTarget.Label
import PodTarget.Proofs.BraceGroups

/-! The labels of other pods. The slots of a template are filled one kind after the
other, each time in all of the text as it is by then. That is the same as filling them
all at once: no brace comes in with what is filled in, so a slot can only be found
where the template has it. -/

namespace PodTarget

open Text

namespace Text

theorem replace_append_self {old : List Char} (hold : old ≠ []) (new t : List Char) :
    replace old new (old ++ t) = new ++ replace old new t := by
  rw [replace, split_append_self hold, join_cons_of_ne_nil _ _ (split_ne_nil old t)]
  rfl

theorem replace_cons_of_not_leads {old : List Char} {c : Char} {s : List Char}
    (h : ¬old <+: c :: s) (new : List Char) :
    replace old new (c :: s) = c :: replace old new s := by
  rw [replace, split_cons_of_not_leads h, replace]
  obtain ⟨part, parts, hparts⟩ := List.exists_cons_of_ne_nil (split_ne_nil old s)
  rw [hparts, List.modifyHead_cons]
  cases parts with
  | nil => simp [join]
  | cons next rest => simp [join, List.intercalate_cons_cons]

/-- A text is left as it is where the first character of what is replaced does not occur. -/
theorem replace_append_of_notMem {c : Char} {rest s : List Char} (h : c ∉ s) (new t : List Char) :
    replace (c :: rest) new (s ++ t) = s ++ replace (c :: rest) new t := by
  induction s with
  | nil => rfl
  | cons d s ih =>
    have hd : c ≠ d := fun he => h (he ▸ List.mem_cons_self)
    rw [List.cons_append, replace_cons_of_not_leads (by simp [List.cons_prefix_cons, hd]),
      ih fun hs => h (List.mem_cons_of_mem d hs), List.cons_append]

end Text

/-- What a slot of a template is for. -/
inductive Slot
  | lead
  | pod
  | subspec
deriving DecidableEq

namespace Slot

def mark : Slot → List Char
  | lead => placePrefix
  | pod => placePod
  | subspec => placeSubspec

def value (atLead atPod atSubspec : List Char) : Slot → List Char
  | lead => atLead
  | pod => atPod
  | subspec => atSubspec

end Slot

/-- A piece of a template: text without braces, or a slot. -/
inductive Piece
  | literal (l : Glob.Literal)
  | slot (p : Slot)

namespace Piece

def text : Piece → List Char
  | literal l => l.text
  | slot p => p.mark

def filled (value : Slot → List Char) : Piece → List Char
  | literal l => l.text
  | slot p => value p

def put (p : Slot) (l : Glob.Literal) : Piece → Piece
  | literal l' => literal l'
  | slot q => if q = p then literal l else slot q

end Piece

namespace Slot

theorem mark_lead : mark lead = ['{', 'p', 'r', 'e', 'f', 'i', 'x', '}'] := rfl

theorem mark_pod : mark pod = ['{', 'p', 'o', 'd', '}'] := rfl

theorem mark_subspec : mark subspec = ['{', 's', 'u', 'b', 's', 'p', 'e', 'c', '}'] := rfl

theorem exists_mark_eq (p : Slot) : ∃ rest, p.mark = '{' :: rest ∧ '{' ∉ rest := by
  cases p with
  | lead => exact ⟨_, mark_lead, by decide⟩
  | pod => exact ⟨_, mark_pod, by decide⟩
  | subspec => exact ⟨_, mark_subspec, by decide⟩

/-- No two kinds of slots lead the same text. -/
theorem mark_not_leads {p q : Slot} (h : q ≠ p) (t : List Char) : ¬p.mark <+: q.mark ++ t := by
  cases p <;> cases q <;> first
    | exact absurd rfl h
    | simp [mark_lead, mark_pod, mark_subspec, List.cons_prefix_cons]

theorem replace_literal (p : Slot) (l : Glob.Literal) (new t : List Char) :
    replace p.mark new (l.text ++ t) = l.text ++ replace p.mark new t := by
  obtain ⟨rest, hp, -⟩ := p.exists_mark_eq
  rw [hp, replace_append_of_notMem l.noOpening]

theorem replace_self (p : Slot) (new t : List Char) :
    replace p.mark new (p.mark ++ t) = new ++ replace p.mark new t := by
  obtain ⟨rest, hp, -⟩ := p.exists_mark_eq
  exact replace_append_self (by rw [hp]; exact List.cons_ne_nil _ _) new t

theorem replace_other {p q : Slot} (h : q ≠ p) (new t : List Char) :
    replace p.mark new (q.mark ++ t) = q.mark ++ replace p.mark new t := by
  have hleads := mark_not_leads h t
  obtain ⟨rest, hp, -⟩ := p.exists_mark_eq
  obtain ⟨rest', hq, hrest'⟩ := q.exists_mark_eq
  rw [hq, List.cons_append] at hleads
  rw [hq, List.cons_append, replace_cons_of_not_leads hleads, hp,
    replace_append_of_notMem hrest', List.cons_append]

end Slot

/-- Replacing how a slot is written fills that kind of slot and nothing else. -/
theorem replace_flatMap_text (p : Slot) (l : Glob.Literal) (pieces : List Piece) :
    replace p.mark l.text (pieces.flatMap Piece.text) =
      (pieces.map (Piece.put p l)).flatMap Piece.text := by
  induction pieces with
  | nil => rfl
  | cons piece pieces ih =>
    rw [List.flatMap_cons, List.map_cons, List.flatMap_cons, ← ih]
    cases piece with
    | literal l' => exact p.replace_literal l' _ _
    | slot q =>
      by_cases h : q = p
      · rw [h, Piece.put, if_pos rfl]
        exact p.replace_self _ _
      · rw [Piece.put, if_neg h]
        exact Slot.replace_other h _ _

/-- Filling the slots one kind after the other fills them all at once. -/
theorem fill_flatMap_text (lead pod subspec : Glob.Literal) (pieces : List Piece) :
    fill (pieces.flatMap Piece.text) lead.text pod.text subspec.text =
      pieces.flatMap (Piece.filled (Slot.value lead.text pod.text subspec.text)) := by
  have one (piece : Piece) :
      (((piece.put .lead lead).put .pod pod).put .subspec subspec).text =
        piece.filled (Slot.value lead.text pod.text subspec.text) := by
    cases piece with
    | literal l => rfl
    | slot p => cases p <;> rfl
  calc fill (pieces.flatMap Piece.text) lead.text pod.text subspec.text
      = replace (Slot.mark .subspec) subspec.text (replace (Slot.mark .pod) pod.text
          (replace (Slot.mark .lead) lead.text (pieces.flatMap Piece.text))) := rfl
    _ = (((pieces.map (Piece.put .lead lead)).map (Piece.put .pod pod)).map
          (Piece.put .subspec subspec)).flatMap Piece.text := by
        rw [replace_flatMap_text, replace_flatMap_text, replace_flatMap_text]
    _ = pieces.flatMap (Piece.filled (Slot.value lead.text pod.text subspec.text)) := by
        simp only [List.map_map, List.flatMap_map, Function.comp_def, one]

theorem notMem_sanitize {c : Char} (h : isLabelChar c = false) (hc : c ≠ '_') (s : List Char) :
    c ∉ sanitize s := by
  rw [sanitize, List.mem_map]
  rintro ⟨d, -, hd⟩
  split at hd
  case isTrue hlabel => rw [hd, h] at hlabel; nomatch hlabel
  case isFalse => exact hc hd.symm

def sanitized (s : List Char) : Glob.Literal where
  text := sanitize s
  noOpening := notMem_sanitize (by decide) (by decide) s
  noClosing := notMem_sanitize (by decide) (by decide) s

/-- The label of another pod is the template with the prefix, the name of the pod and
those of its subspecs in the slots for them, all put in at once. -/
theorem labelOf_fills_slots (o : Options) (pod dependency : String) (pieces : List Piece)
    (htemplate : o.dependencyTemplate.toList = pieces.flatMap Piece.text)
    (hopening : '{' ∉ o.depsPrefix.toList) (hclosing : '}' ∉ o.depsPrefix.toList)
    (hother : localParts? pod o.separator dependency = none) :
    ∃ first rest, CutInto o.separator.text dependency.toList (first :: rest) ∧
      labelOf o pod dependency = .ofList (pieces.flatMap (Piece.filled
        (Slot.value o.depsPrefix.toList (sanitize first) (sanitize (join ['_'] rest))))) := by
  obtain ⟨first, rest, hparts⟩ :=
    List.exists_cons_of_ne_nil (split_ne_nil o.separator.text dependency.toList)
  refine ⟨first, rest, hparts ▸ cutInto_split o.separator.ne_nil _, ?_⟩
  rw [labelOf, hother]
  show String.ofList (fill _ _ _ _) = _
  rw [hparts, htemplate]
  exact congrArg String.ofList (fill_flatMap_text ⟨_, hopening, hclosing⟩ (sanitized first)
    (sanitized (join ['_'] rest)) pieces)

/-- The pod and its subspecs behind the prefix, the name of the pod twice. -/
def twice : List Piece :=
  [.slot .lead, .slot .pod, .literal ⟨[':'], by decide, by decide⟩, .slot .pod,
    .literal ⟨['_'], by decide, by decide⟩, .slot .subspec]

theorem labelOf_fills_slots_twice :
    let o := { Options.default with
      depsPrefix := "@pods//", dependencyTemplate := .ofList (twice.flatMap Piece.text),
      subspecSeparator := "::" }
    let dependency := "\x7bsubspec\x7dKit::\x7bpod\x7d::UI"
    o.dependencyTemplate.toList = twice.flatMap Piece.text ∧
      '{' ∉ o.depsPrefix.toList ∧ '}' ∉ o.depsPrefix.toList ∧
      localParts? "Foo" o.separator dependency = none ∧
      labelOf o "Foo" dependency = "@pods//_subspec_Kit:_subspec_Kit__pod__UI" ∧
      ∃ first rest, CutInto o.separator.text dependency.toList (first :: rest) ∧
        labelOf o "Foo" dependency = .ofList (twice.flatMap (Piece.filled
          (Slot.value o.depsPrefix.toList (sanitize first) (sanitize (join ['_'] rest))))) := by
  intro o dependency
  have htemplate : o.dependencyTemplate.toList = twice.flatMap Piece.text := String.toList_ofList
  have hopening : '{' ∉ o.depsPrefix.toList := by decide
  have hclosing : '}' ∉ o.depsPrefix.toList := by decide
  have hother : localParts? "Foo" o.separator dependency = none := by decide +kernel
  exact ⟨htemplate, hopening, hclosing, hother, by decide +kernel,
    labelOf_fills_slots o "Foo" dependency twice htemplate hopening hclosing hother⟩

end PodTarget
