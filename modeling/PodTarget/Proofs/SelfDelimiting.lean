import Mathlib.Data.List.Basic
import PodTarget.Proofs.Delimiters
import PodTarget.Proofs.Expressions
import PodTarget.Text.Split

/-! No expression without sets is written as the beginning of another one. Its
kind is known from its first character, the layout of a list from the second; a
value, which may be a sum, is known to end by the comma after it. -/

namespace PodTarget.Starlark

open Text

/-- The characters that an expression of a kind may start with. -/
def Node.leads : Node → List Char
  | .none => ['N']
  | .bool _ => ['T', 'F']
  | .str _ => ['"']
  | .list _ => ['[']
  | .set _ => ['[']
  | .dict _ => ['\x7b']
  | .call .. => ['g']
  | .select _ => ['s']
  | _ => []

theorem bracketed_eq_cons (items : List Piece) (level : Nat) :
    ∃ rest, bracketed items level = '[' :: rest := by
  match items with
  | [] => exact ⟨_, rfl⟩
  | [item] =>
    rw [bracketed]
    split
    · exact ⟨_, rfl⟩
    · exact ⟨_, rfl⟩
  | a :: b :: items => exact ⟨_, rfl⟩

theorem braced_eq_cons (entries : List (Nat → List Char)) (level : Nat) :
    ∃ rest, braced entries level = '\x7b' :: rest := by
  cases entries with
  | nil => exact ⟨_, rfl⟩
  | cons e entries => exact ⟨_, rfl⟩

section Kinds

variable {sets : Bool} {n m : Node} {level : Nat} {r r' : List Char}

theorem Expression.text_eq_cons (h : Expression sets n) (level : Nat) :
    ∃ c ∈ n.leads, ∃ rest, n.text level = c :: rest := by
  cases h with
  | none => exact ⟨'N', by simp [Node.leads], _, by rw [Node.text]⟩
  | bool b =>
    cases b with
    | true => exact ⟨'T', by simp [Node.leads], _, by rw [Node.text]; rfl⟩
    | false => exact ⟨'F', by simp [Node.leads], _, by rw [Node.text]; rfl⟩
  | str s => exact ⟨'"', by simp [Node.leads], _, by rw [Node.text, quote]⟩
  | list =>
    obtain ⟨rest, hrest⟩ := bracketed_eq_cons (pieces _) level
    exact ⟨'[', by simp [Node.leads], rest, by rw [Node.text, hrest]⟩
  | set =>
    obtain ⟨rest, hrest⟩ := bracketed_eq_cons (inOrder (pieces _)) level
    exact ⟨'[', by simp [Node.leads], rest, by rw [Node.text, hrest]⟩
  | dict =>
    obtain ⟨rest, hrest⟩ := braced_eq_cons (entryTexts _) level
    exact ⟨'\x7b', by simp [Node.leads], rest, by rw [Node.text, hrest]⟩
  | glob p => exact ⟨'g', by simp [Node.leads], _, by rw [Node.text]; rfl⟩
  | select => exact ⟨'s', by simp [Node.leads], _, by rw [Node.text]; rfl⟩

/-- Expressions that are written alike start alike. -/
theorem Expression.exists_lead (hn : Expression sets n) (hm : Expression sets m)
    (h : n.text level ++ r = m.text level ++ r') : ∃ c, c ∈ n.leads ∧ c ∈ m.leads := by
  obtain ⟨c, hc, s, hs⟩ := hn.text_eq_cons level
  obtain ⟨d, hd, t, ht⟩ := hm.text_eq_cons level
  rw [hs, ht] at h
  obtain rfl := List.head_eq_of_cons_eq h
  exact ⟨c, hc, hd⟩

end Kinds

section Parts

variable {n : Node} {level : Nat} {r r' : List Char}

theorem Expression.lead_ne (h : Expression false n) {c : Char} (hc : c ∈ n.leads) :
    c ≠ ']' ∧ c ≠ '\n' := by
  constructor
  · rintro rfl
    cases h <;> simp [Node.leads] at hc
  · rintro rfl
    cases h <;> simp [Node.leads] at hc

/-- What comes after the bracket tells the three layouts of a list apart. -/
theorem bracketed_pieces {items : List Node} (h : ∀ n ∈ items, Expression false n) (level : Nat) :
    ∃ c rest, bracketed (pieces items) level = '[' :: c :: rest ∧
      ((c = ']' ∧ items = [] ∧ rest = []) ∨
        (c = '\n' ∧ bracketed (pieces items) level = block '[' ']' (items.map Node.text) level) ∨
        (c ≠ ']' ∧ c ≠ '\n' ∧ ∃ n, items = [n] ∧
          bracketed (pieces items) level = '[' :: (n.text level ++ [']']))) := by
  obtain ⟨rest, hrest⟩ := block_eq_cons '[' ']' (items.map Node.text) level
  match items with
  | [] => exact ⟨']', [], rfl, Or.inl ⟨rfl, rfl, rfl⟩⟩
  | [n] =>
    rw [pieces, pieces, bracketed]
    cases n.isScalar with
    | false => exact ⟨'\n', rest, hrest, Or.inr (Or.inl ⟨rfl, rfl⟩)⟩
    | true =>
      have hexpr := h n List.mem_cons_self
      obtain ⟨c, hc, s, hs⟩ := hexpr.text_eq_cons level
      obtain ⟨hclosing, hbreak⟩ := hexpr.lead_ne hc
      exact ⟨c, s ++ [']'], by simp [hs], Or.inr (Or.inr ⟨hclosing, hbreak, n, rfl, rfl⟩)⟩
  | a :: b :: items =>
    have hblock : bracketed (pieces (a :: b :: items)) level =
        block '[' ']' ((a :: b :: items).map Node.text) level := by
      rw [pieces_eq_map]
      show block '[' ']' (((a :: b :: items).map Node.piece).map (·.text)) level = _
      rw [List.map_map]
      rfl
    exact ⟨'\n', rest, hblock.trans hrest, Or.inr (Or.inl ⟨rfl, hblock⟩)⟩

theorem bracketed_append_inj {as bs : List Node} (ha : ∀ a ∈ as, Expression false a)
    (hb : ∀ b ∈ bs, Expression false b)
    (hdelim : ∀ a ∈ as, ∀ level, Delimited (Expression false) (·.text level) a)
    (h : bracketed (pieces as) level ++ r = bracketed (pieces bs) level ++ r') :
    as = bs ∧ r = r' := by
  obtain ⟨c, s, hs, has⟩ := bracketed_pieces ha level
  obtain ⟨d, t, ht, hbs⟩ := bracketed_pieces hb level
  have hcd : c = d := by
    rw [hs, ht] at h
    exact List.head_eq_of_cons_eq (List.tail_eq_of_cons_eq h)
  subst hcd
  rcases has with ⟨rfl, rfl, rfl⟩ | ⟨rfl, has⟩ | ⟨hclosing, hbreak, a, rfl, has⟩
  · rcases hbs with ⟨-, rfl, rfl⟩ | ⟨hc, -⟩ | ⟨hc, -⟩
    · exact ⟨rfl, List.append_cancel_left h⟩
    · exact absurd hc (by decide)
    · exact absurd rfl hc
  · rcases hbs with ⟨hc, -⟩ | ⟨-, hbs⟩ | ⟨-, hc, -⟩
    · exact absurd hc (by decide)
    · rw [has, hbs] at h
      exact block_append_inj (by decide)
        (fun a ha => delimited_comma (hdelim a ha (level + 1))) hb h
    · exact absurd rfl hc
  · rcases hbs with ⟨hc, -⟩ | ⟨hc, -⟩ | ⟨-, -, b, rfl, hbs⟩
    · exact absurd hc hclosing
    · exact absurd hc hbreak
    · rw [has, hbs] at h
      simp only [List.cons_append, List.append_assoc, List.cons.injEq, true_and] at h
      obtain ⟨rfl, hr⟩ := hdelim a List.mem_cons_self level b (hb b List.mem_cons_self) _ _ h
      exact ⟨rfl, List.tail_eq_of_cons_eq hr⟩

theorem delimited_pair {κ : Type} {P : κ → Prop} (write : κ → Nat → List Char) {e : κ × Node}
    (hk : Delimited P (write · level) e.1)
    (hv : Delimited (Expression false) (·.text level) e.2) :
    Delimited (fun e => P e.1 ∧ Expression false e.2)
      (fun e => pair (write e.1) e.2.text level ++ [',']) e := by
  refine delimited_comma fun e' he' r r' h => ?_
  simp only [pair, List.append_assoc, List.cons_append] at h
  obtain ⟨hkey, hrest⟩ := hk e'.1 he'.1 _ _ h
  simp only [List.cons.injEq, true_and] at hrest
  obtain ⟨hvalue, hr⟩ := hv e'.2 he'.2 _ _ hrest
  exact ⟨Prod.ext hkey hvalue, hr⟩

theorem delimited_str (s : String) (level : Nat) :
    Delimited (Expression false) (·.text level) (.str s) := by
  intro m hm r r' h
  have hlead := (Expression.str s).exists_lead hm h
  cases hm with
  | str t =>
    simp only [Node.text] at h
    obtain ⟨rfl, hr⟩ := delimited_quote s t trivial _ _ h
    exact ⟨rfl, hr⟩
  | _ => simp [Node.leads] at hlead

theorem strings_append_inj {l l' : List String}
    (h : (Node.strings l).text level ++ r = (Node.strings l').text level ++ r') :
    l = l' ∧ r = r' := by
  have items (l : List String) : ∀ n ∈ l.map Node.str, ∃ s, n = .str s := by
    intro n hn
    obtain ⟨s, -, rfl⟩ := List.mem_map.1 hn
    exact ⟨s, rfl⟩
  have expressions (l : List String) : ∀ n ∈ l.map Node.str, Expression false n := by
    intro n hn
    obtain ⟨s, rfl⟩ := items l n hn
    exact .str s
  simp only [Node.strings, Node.text] at h
  obtain ⟨hl, hr⟩ := bracketed_append_inj (expressions l) (expressions l')
    (fun n hn => by
      obtain ⟨s, rfl⟩ := items l n hn
      exact delimited_str s) h
  exact ⟨List.map_injective_iff.2 (fun s t h => Node.str.inj h) hl, hr⟩

/-- A glob stays on its line unless something is excluded. -/
theorem text_glob (p : FilePattern) (level : Nat) : (Node.call "glob" (globArgs p)).text level =
    "glob".toList ++
      if p.excl.isEmpty then '(' :: ((Node.strings p.incl.toList).text level ++ [')'])
      else '(' :: (lineBreak (level + 1) ++ ((Node.strings p.incl.toList).text (level + 1) ++
        (',' :: (lineBreak (level + 1) ++ ("exclude".toList ++ (' ' :: '=' :: ' ' ::
          ((Node.strings p.excl.toList).text (level + 1) ++
            (',' :: (lineBreak level ++ [')']))))))))) := by
  rw [Node.text, globArgs]
  split
  · simp [argTexts, Arg.text, parenthesized]
  · simp [argTexts, Arg.text, parenthesized, block, Arg.isNamed]

theorem glob_append_inj {p q : FilePattern} (h : (Node.call "glob" (globArgs p)).text level ++ r =
    (Node.call "glob" (globArgs q)).text level ++ r') : p = q ∧ r = r' := by
  have included {l l' : StringSet} {level : Nat} {r r' : List Char}
      (h : (Node.strings l.toList).text level ++ r = (Node.strings l'.toList).text level ++ r') :
      l = l' ∧ r = r' := by
    obtain ⟨hl, hr⟩ := strings_append_inj h
    exact ⟨Std.ExtTreeSet.toList_inj.1 hl, hr⟩
  have onLine (l : StringSet) :
      ∃ rest, (Node.strings l.toList).text level = '[' :: rest := by
    rw [Node.strings, Node.text]
    exact bracketed_eq_cons ..
  rw [text_glob, text_glob, List.append_assoc, List.append_assoc] at h
  replace h := List.append_cancel_left h
  split at h
  case isTrue hp =>
    split at h
    case isTrue hq =>
      simp only [List.cons_append, List.append_assoc, List.cons.injEq, true_and] at h
      obtain ⟨hincl, hr⟩ := included h
      have hexcl : p.excl = q.excl :=
        (Std.ExtTreeSet.isEmpty_iff.1 hp).trans (Std.ExtTreeSet.isEmpty_iff.1 hq).symm
      exact ⟨congrArg₂ FilePattern.mk hincl hexcl, List.tail_eq_of_cons_eq hr⟩
    case isFalse =>
      obtain ⟨rest, hrest⟩ := onLine p.incl
      rw [hrest] at h
      simp [lineBreak] at h
  case isFalse =>
    split at h
    case isTrue =>
      obtain ⟨rest, hrest⟩ := onLine q.incl
      rw [hrest] at h
      simp [lineBreak] at h
    case isFalse =>
      simp only [List.cons_append, List.append_assoc, List.cons.injEq, true_and] at h
      obtain ⟨hincl, hrest⟩ := included (List.append_cancel_left h)
      simp only [List.cons.injEq, true_and] at hrest
      have hexclude := List.append_cancel_left (List.append_cancel_left hrest)
      simp only [List.cons.injEq, true_and] at hexclude
      obtain ⟨hexcl, hlast⟩ := included hexclude
      simp only [List.cons.injEq, true_and] at hlast
      have hr := List.tail_eq_of_cons_eq (List.append_cancel_left hlast)
      exact ⟨congrArg₂ FilePattern.mk hincl hexcl, hr⟩

/-- No expression is written as the beginning of another one. -/
theorem Expression.delimited (h : Expression false n) :
    ∀ level, Delimited (Expression false) (·.text level) n := by
  -- in each case the first character leaves expressions of the same kind only
  induction h with
  | none =>
    intro level m hm r r' h
    have hlead := Expression.none.exists_lead hm h
    cases hm with
    | none => exact ⟨rfl, List.append_cancel_left h⟩
    | _ => simp [Node.leads] at hlead
  | bool b =>
    intro level m hm r r' h
    have hlead := (Expression.bool b).exists_lead hm h
    cases hm with
    | bool b' =>
      simp only [Node.text] at h
      cases b <;> cases b' <;> simp at h
      · exact ⟨rfl, h⟩
      · exact ⟨rfl, h⟩
    | _ => simp [Node.leads] at hlead
  | str s => exact delimited_str s
  | list ha hd =>
    intro level m hm r r' h
    have hlead := (Expression.list ha).exists_lead hm h
    cases hm with
    | list hb =>
      simp only [Node.text] at h
      obtain ⟨rfl, hr⟩ := bracketed_append_inj ha hb hd h
      exact ⟨rfl, hr⟩
    | set hs => exact absurd hs Bool.false_ne_true
    | _ => simp [Node.leads] at hlead
  | set hs => exact absurd hs Bool.false_ne_true
  | dict hk hv hdk hdv =>
    intro level m hm r r' h
    have hlead := (Expression.dict hk hv).exists_lead hm h
    cases hm with
    | dict hk' hv' =>
      simp only [Node.text, entryTexts_eq_map] at h
      obtain ⟨rfl, hr⟩ := braced_append_inj
        (fun e he => delimited_pair Node.text (hdk e he (level + 1)) (hdv e he (level + 1)))
        (fun e he => ⟨hk' e he, hv' e he⟩) h
      exact ⟨rfl, hr⟩
    | _ => simp [Node.leads] at hlead
  | glob p =>
    intro level m hm r r' h
    have hlead := (Expression.glob p).exists_lead hm h
    cases hm with
    | glob q =>
      obtain ⟨rfl, hr⟩ := glob_append_inj h
      exact ⟨rfl, hr⟩
    | _ => simp [Node.leads] at hlead
  | select hv hd =>
    intro level m hm r r' h
    have hlead := (Expression.select hv).exists_lead hm h
    cases hm with
    | select hv' =>
      simp only [Node.text, branchTexts_eq_map, List.append_assoc] at h
      have hbranches := List.append_cancel_left h
      obtain ⟨rfl, hr⟩ := braced_append_inj
        (fun b hb => delimited_pair (fun k _ => quote k.toList) (delimited_quote b.1)
          (hd b hb (level + 1)))
        (fun b hb => ⟨trivial, hv' b hb⟩) hbranches
      exact ⟨rfl, List.append_cancel_left hr⟩
    | _ => simp [Node.leads] at hlead

theorem text_add (lhs rhs : Node) (level : Nat) : (Node.add lhs rhs).text level =
    lhs.text level ++ ' ' :: '+' :: ' ' :: rhs.text level := by
  rw [Node.add, Node.text]
  exact List.append_assoc ..

/-- A value is known to end by the comma after it, where a sum goes on. -/
theorem Value.delimited (h : Value false n) (level : Nat) :
    Delimited (Value false) (fun n => n.text level ++ [',']) n := by
  intro m hm r r' htext
  simp only [List.append_assoc, List.cons_append, List.nil_append] at htext
  cases h with
  | single hn =>
    cases hm with
    | single hm =>
      obtain ⟨rfl, hr⟩ := hn.delimited level _ hm _ _ htext
      exact ⟨rfl, List.tail_eq_of_cons_eq hr⟩
    | sum hl' hr' =>
      rw [text_add, List.append_assoc] at htext
      obtain ⟨-, hr⟩ := hn.delimited level _ hl' _ _ htext
      exact absurd (List.head_eq_of_cons_eq hr) (by decide)
  | sum hl hr =>
    rw [text_add, List.append_assoc] at htext
    cases hm with
    | single hm =>
      obtain ⟨-, hr⟩ := hl.delimited level _ hm _ _ htext
      exact absurd (List.head_eq_of_cons_eq hr) (by decide)
    | sum hl' hr' =>
      rw [text_add, List.append_assoc] at htext
      obtain ⟨rfl, hrest⟩ := hl.delimited level _ hl' _ _ htext
      simp only [List.cons_append, List.cons.injEq, true_and] at hrest
      obtain ⟨rfl, hr⟩ := hr.delimited level _ hr' _ _ hrest
      exact ⟨rfl, List.tail_eq_of_cons_eq hr⟩

/-- The name of an argument ends at the first blank. -/
theorem delimited_named {a : String × Node} (hname : ' ' ∉ a.1.toList) (hvalue : Value false a.2)
    (level : Nat) : Delimited (fun a => ' ' ∉ a.1.toList ∧ Value false a.2)
      (fun a => (Arg.named a.1 a.2).text level ++ [',']) a := by
  rintro ⟨name, v⟩ ⟨hname', hvalue'⟩ r r' h
  simp only [Arg.text, List.append_assoc, List.cons_append] at h
  have hcut := congrArg (cut? ' ') h
  rw [cut?_eq_some_iff.2 ⟨rfl, hname⟩, cut?_eq_some_iff.2 ⟨rfl, hname'⟩] at hcut
  obtain ⟨hnames, hrest⟩ := Prod.mk.inj (Option.some.inj hcut)
  simp only [List.cons.injEq, true_and, List.nil_append] at hrest
  obtain ⟨hv, hr⟩ := hvalue.delimited level v hvalue' r r' (by simpa using hrest)
  exact ⟨Prod.ext (String.toList_injective hnames) hv, hr⟩

end Parts

end PodTarget.Starlark
