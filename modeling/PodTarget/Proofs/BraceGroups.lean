import Mathlib.Data.List.Forall2
import Mathlib.Data.List.GetD
import PodTarget.Glob.Braces
import PodTarget.Proofs.Splitting

/-! What becomes of a pattern when its groups are opened up. Each step takes the first
group away and leaves what stands around it, so an induction over the steps carries
all that is said here, and first that the steps come to an end. In a pattern of literals
and groups in turn, what stands in front of the next group is always a literal, and one
alternative is picked per group. -/

namespace PodTarget.Glob

open Text

/-- An opening brace and, anywhere after it, a closing one. -/
def HasGroup (s : List Char) : Prop := ['{', '}'].Sublist s

theorem hasGroup_of_mem {a b : List Char} (h : '}' ∈ b) : HasGroup (a ++ '{' :: b) :=
  ((List.singleton_sublist.2 h).cons_cons '{').trans (List.sublist_append_right a _)

theorem hasGroup_iff {s : List Char} : HasGroup s ↔ ∃ a b c, group? s = some (a, b, c) := by
  constructor
  · intro h
    obtain ⟨front, back, rfl, hopening, hclosing⟩ := List.cons_sublist_iff.1 h
    obtain ⟨a, rest, rfl, ha⟩ := List.eq_append_cons_of_mem hopening
    have hrest : '}' ∈ rest ++ back :=
      List.mem_append_right _ (List.singleton_sublist.1 hclosing)
    obtain ⟨b, c, hbc, hb⟩ := List.eq_append_cons_of_mem hrest
    refine ⟨a, b, c, group?_eq_some_iff.2 ⟨?_, ha, hb⟩⟩
    rw [List.append_assoc, List.cons_append, hbc]
  · rintro ⟨a, b, c, h⟩
    obtain ⟨rfl, -, -⟩ := group?_eq_some_iff.1 h
    exact hasGroup_of_mem (by simp)

theorem group?_eq_none_iff {s : List Char} : group? s = none ↔ ¬HasGroup s := by
  rw [hasGroup_iff, Option.eq_none_iff_forall_ne_some]
  simp only [Prod.forall, ne_eq, not_exists]

/-- What is put behind a text without a closing brace makes no new group. -/
theorem hasGroup_append_iff {s t : List Char} (ht : '}' ∉ t) : HasGroup (s ++ t) ↔ HasGroup s := by
  constructor
  · intro h
    obtain ⟨front, back, hsplit, hfront, hback⟩ := List.sublist_append_iff.1 h
    cases back with
    | nil =>
      rw [List.append_nil] at hsplit
      rwa [HasGroup, hsplit]
    | cons c back =>
      have hlast : '}' ∈ c :: back := by
        have := congrArg List.getLast? hsplit
        rw [List.getLast?_append_of_ne_nil _ (List.cons_ne_nil c back)] at this
        exact List.mem_of_getLast? this.symm
      exact absurd (hback.subset hlast) ht
  · exact fun h => h.trans (List.sublist_append_left s t)

theorem count_open_group {a b c : List Char} :
    (a ++ '{' :: (b ++ '}' :: c)).count '{' = a.count '{' + b.count '{' + c.count '{' + 1 := by
  simp
  omega

theorem count_close_group {a b c : List Char} :
    (a ++ '{' :: (b ++ '}' :: c)).count '}' = a.count '}' + b.count '}' + c.count '}' + 1 := by
  simp
  omega

section Steps

variable {s before inside tail : List Char}

theorem count_opened_lt (h : group? s = some (before, inside, tail)) {alt : List Char}
    (halt : alt ∈ split [','] inside) : (before ++ alt ++ tail).count '{' < s.count '{' := by
  obtain ⟨rfl, -, -⟩ := group?_eq_some_iff.1 h
  have hle := (sublist_of_mem_split halt).count_le '{'
  rw [count_open_group, List.count_append, List.count_append]
  omega

/-- More rounds than there are opening braces change nothing. -/
theorem expandTimes_of_le {n : Nat} (h : s.count '{' ≤ n) : expandTimes n s = expand s := by
  have plain {s : List Char} (hg : group? s = none) (k : Nat) : expandTimes k s = [s] := by
    cases k with
    | zero => rfl
    | succ k => rw [expandTimes, hg]
  have stable : ∀ (n m : Nat) (s : List Char), s.count '{' ≤ n → s.count '{' ≤ m →
      expandTimes n s = expandTimes m s := by
    intro n
    induction n with
    | zero =>
      intro m s hn hm
      cases hg : group? s with
      | none => rw [plain hg, plain hg]
      | some g =>
        have hlt := count_opened_lt hg (List.head_mem (split_ne_nil [','] g.2.1))
        omega
    | succ n ih =>
      intro m s hn hm
      cases hg : group? s with
      | none => rw [plain hg, plain hg]
      | some g =>
        obtain ⟨before, inside, tail⟩ := g
        have hlt := count_opened_lt hg (List.head_mem (split_ne_nil [','] inside))
        obtain ⟨m, rfl⟩ : ∃ k, m = k + 1 := ⟨m - 1, by omega⟩
        simp only [expandTimes, hg]
        refine List.flatMap_congr fun alt halt => ih m _ ?_ ?_
        all_goals
          have := count_opened_lt hg halt
          omega
  exact stable n _ s h (Nat.le_refl _)

theorem expand_of_not_hasGroup (h : ¬HasGroup s) : expand s = [s] := by
  rw [← expandTimes_of_le (Nat.le_succ _), expandTimes, group?_eq_none_iff.2 h]

theorem expand_of_group? (h : group? s = some (before, inside, tail)) :
    expand s = (split [','] inside).flatMap fun alt => expand (before ++ alt ++ tail) := by
  rw [← expandTimes_of_le (Nat.le_succ _), expandTimes, h]
  refine List.flatMap_congr fun alt halt => expandTimes_of_le ?_
  exact Nat.le_of_lt (count_opened_lt h halt)

end Steps

/-- A pattern is opened up group by group: what holds where there is no group, and of
a pattern if it holds with each alternative in the place of the first group, always holds. -/
theorem expand_induction {motive : List Char → Prop} (plain : ∀ s, ¬HasGroup s → motive s)
    (opened : ∀ s before inside tail, group? s = some (before, inside, tail) →
      (∀ alt ∈ split [','] inside, motive (before ++ alt ++ tail)) → motive s)
    (s : List Char) : motive s := by
  cases hg : group? s with
  | none => exact plain s (group?_eq_none_iff.1 hg)
  | some g =>
    exact opened s g.1 g.2.1 g.2.2 hg fun alt halt =>
      expand_induction plain opened (g.1 ++ alt ++ g.2.2)
termination_by s.count '{'
decreasing_by exact count_opened_lt hg halt

/-- There is always a result. -/
theorem expand_ne_nil (s : List Char) : expand s ≠ [] := by
  induction s using expand_induction with
  | plain s h => rw [expand_of_not_hasGroup h]; exact List.cons_ne_nil _ _
  | opened s before inside tail h ih =>
    rw [expand_of_group? h]
    intro hnil
    exact ih _ (List.head_mem (split_ne_nil [','] inside))
      (List.flatMap_eq_nil_iff.1 hnil _ (List.head_mem _))

/-- A result is reached by picking an alternative of the first group again and again: what
holds of it, and of a pattern if it holds with the alternative picked, holds of the pattern. -/
@[elab_as_elim]
theorem mem_expand_induction {motive : List Char → Prop} {s result : List Char}
    (h : result ∈ expand s) (reached : ¬HasGroup result → motive result)
    (picked : ∀ s before inside tail alt, group? s = some (before, inside, tail) →
      alt ∈ split [','] inside → motive (before ++ alt ++ tail) → motive s) : motive s := by
  induction s using expand_induction with
  | plain s hs =>
    rw [expand_of_not_hasGroup hs, List.mem_singleton] at h
    subst h
    exact reached hs
  | opened s before inside tail hg ih =>
    rw [expand_of_group? hg, List.mem_flatMap] at h
    obtain ⟨alt, halt, hr⟩ := h
    exact picked s before inside tail alt hg halt (ih alt halt hr)

/-- No result has a group left. -/
theorem not_hasGroup_of_mem_expand {s result : List Char} (h : result ∈ expand s) :
    ¬HasGroup result :=
  mem_expand_induction (motive := fun _ => ¬HasGroup result) h id fun _ _ _ _ _ _ _ ih => ih

theorem expand_eq_singleton_iff {s : List Char} : expand s = [s] ↔ ¬HasGroup s := by
  constructor
  · intro h
    exact not_hasGroup_of_mem_expand (h ▸ List.mem_singleton_self s)
  · exact expand_of_not_hasGroup

theorem expandBraces_eq_singleton_iff {pattern : String} :
    expandBraces pattern = [pattern] ↔ ¬HasGroup pattern.toList := by
  rw [← expand_eq_singleton_iff, expandBraces]
  constructor
  · intro h
    have := congrArg (List.map String.toList) h
    simpa [List.map_map, Function.comp_def] using this
  · intro h
    rw [h, List.map_singleton, String.ofList_toList]

/-- Groups are opened up for as long as there is one, whatever number of rounds that takes:
a pattern without a group is its only result, another one has those with each alternative
in the place of the first group. -/
inductive Expands : List Char → List (List Char) → Prop
  | plain {s : List Char} (h : ¬HasGroup s) : Expands s [s]
  | opened {before inside tail : List Char} {results : List Char → List (List Char)}
      (hbefore : '{' ∉ before) (hinside : '}' ∉ inside)
      (h : ∀ alt ∈ split [','] inside, Expands (before ++ alt ++ tail) (results alt)) :
      Expands (before ++ '{' :: (inside ++ '}' :: tail)) ((split [','] inside).flatMap results)

theorem expands_expand (s : List Char) : Expands s (expand s) := by
  induction s using expand_induction with
  | plain s h => rw [expand_of_not_hasGroup h]; exact .plain h
  | opened s before inside tail hg ih =>
    rw [expand_of_group? hg]
    obtain ⟨rfl, hbefore, hinside⟩ := group?_eq_some_iff.1 hg
    exact .opened hbefore hinside ih

theorem Expands.eq_expand {s : List Char} {results : List (List Char)} (h : Expands s results) :
    results = expand s := by
  induction h with
  | plain h => exact (expand_of_not_hasGroup h).symm
  | opened hbefore hinside _ ih =>
    rw [expand_of_group? (group?_eq_some_iff.2 ⟨rfl, hbefore, hinside⟩)]
    exact List.flatMap_congr ih

/-- Opening up groups ends for every text, with one list of results, which is never empty.
No result has anything left to open up. -/
theorem expandBraces_ends (pattern : String) :
    (∀ results, Expands pattern.toList results ↔ results.map String.ofList = expandBraces pattern) ∧
      expandBraces pattern ≠ [] ∧
      ∀ result ∈ expandBraces pattern, expandBraces result = [result] := by
  refine ⟨fun results => ?_, ?_, fun result hresult => ?_⟩
  · constructor
    · intro h
      rw [h.eq_expand, expandBraces]
    · intro h
      obtain rfl : results = expand pattern.toList :=
        List.map_injective_iff.2 (fun _ _ => String.ofList_injective) h
      exact expands_expand _
  · rw [expandBraces, ne_eq, List.map_eq_nil_iff]
    exact expand_ne_nil _
  · obtain ⟨cs, hcs, rfl⟩ := List.mem_map.1 hresult
    rw [expandBraces_eq_singleton_iff, String.toList_ofList]
    exact not_hasGroup_of_mem_expand hcs

/-- A text without braces. -/
structure Literal where
  text : List Char
  noOpening : '{' ∉ text
  noClosing : '}' ∉ text

/-- The alternatives of a group, without braces and commas. There is always one, if
only the empty one. -/
structure Group where
  alternatives : List Literal
  ne_nil : alternatives ≠ []
  noComma : ∀ alt ∈ alternatives, ',' ∉ alt.text

/-- Literals and groups in turn. -/
structure Alternation where
  lead : Literal
  rest : List (Group × Literal)

namespace Literal

theorem not_hasGroup (l : Literal) : ¬HasGroup l.text :=
  fun h => l.noOpening (h.subset (by simp))

def append (a b : Literal) : Literal where
  text := a.text ++ b.text
  noOpening := by simp [a.noOpening, b.noOpening]
  noClosing := by simp [a.noClosing, b.noClosing]

end Literal

namespace Group

def texts (g : Group) : List (List Char) := g.alternatives.map (·.text)

def text (g : Group) : List Char := '{' :: (join [','] g.texts ++ ['}'])

def size (g : Group) : Nat := g.alternatives.length

/-- The alternative at a place. -/
def alternative (g : Group) (i : Nat) : List Char := g.texts.getD i []

theorem alternative_eq (g : Group) {i : Nat} (hi : i < g.size) :
    g.alternative i = (g.alternatives.get ⟨i, hi⟩).text := by
  unfold alternative texts
  rw [List.getD_eq_getElem _ _ (by rw [List.length_map]; exact hi), List.getElem_map,
    List.get_eq_getElem]

theorem texts_eq_map_range (g : Group) : g.texts = (List.range g.size).map g.alternative := by
  refine List.ext_getElem (by simp [texts, size]) fun i hi hi' => ?_
  rw [List.getElem_map, List.getElem_range, alternative, List.getD_eq_getElem _ _ hi]

theorem split_join_texts (g : Group) : split [','] (join [','] g.texts) = g.texts := by
  refine split_join (by simpa [texts] using g.ne_nil) fun part hpart => ?_
  obtain ⟨alt, halt, rfl⟩ := List.mem_map.1 hpart
  exact g.noComma alt halt

theorem noClosing_join_texts (g : Group) : '}' ∉ join [','] g.texts := by
  refine notMem_join (by decide) fun part hpart => ?_
  obtain ⟨alt, -, rfl⟩ := List.mem_map.1 hpart
  exact alt.noClosing

end Group

/-- All ways to pick a place for each size, the first one varying slowest. -/
def picks : List Nat → List (List Nat)
  | [] => [[]]
  | n :: sizes => (List.range n).flatMap fun i => (picks sizes).map (i :: ·)

theorem mem_picks {sizes pick : List Nat} :
    pick ∈ picks sizes ↔ List.Forall₂ (· < ·) pick sizes := by
  induction sizes generalizing pick with
  | nil => simp [picks]
  | cons n sizes ih =>
    simp only [picks, List.mem_flatMap, List.mem_range, List.mem_map, ih,
      List.forall₂_cons_right_iff]
    constructor
    · rintro ⟨i, hi, pick, hpick, rfl⟩
      exact ⟨i, pick, hi, hpick, rfl⟩
    · rintro ⟨i, pick, hi, hpick, rfl⟩
      exact ⟨i, hi, pick, hpick, rfl⟩

theorem pairwise_picks (sizes : List Nat) : (picks sizes).Pairwise (List.Lex (· < ·)) := by
  induction sizes with
  | nil => exact List.pairwise_singleton _ _
  | cons n sizes ih =>
    rw [picks, List.pairwise_flatMap]
    constructor
    · intro i _
      rw [List.pairwise_map]
      exact ih.imp fun h => .cons h
    · refine List.pairwise_lt_range.imp fun hij a ha b hb => ?_
      obtain ⟨a, -, rfl⟩ := List.mem_map.1 ha
      obtain ⟨b, -, rfl⟩ := List.mem_map.1 hb
      exact .rel hij

def restText (rest : List (Group × Literal)) : List Char :=
  rest.flatMap fun (g, l) => g.text ++ l.text

/-- The alternatives picked, each with the literal after it. -/
def restPicked (rest : List (Group × Literal)) (pick : List Nat) : List Char :=
  (List.zipWith (fun (g, l) i => g.alternative i ++ l.text) rest pick).flatten

/-- What stands in front of the first group is a literal at every step, longer by an
alternative and by the literal after the group. -/
theorem expand_rest (rest : List (Group × Literal)) (lead : Literal) :
    expand (lead.text ++ restText rest) =
      (picks (rest.map (·.1.size))).map fun pick => lead.text ++ restPicked rest pick := by
  induction rest generalizing lead with
  | nil =>
    rw [restText, List.flatMap_nil, List.append_nil, expand_of_not_hasGroup lead.not_hasGroup]
    simp [picks, restPicked]
  | cons first rest ih =>
    obtain ⟨g, l⟩ := first
    have hgroup : group? (lead.text ++ restText ((g, l) :: rest)) =
        some (lead.text, join [','] g.texts, l.text ++ restText rest) := by
      refine group?_eq_some_iff.2 ⟨?_, lead.noOpening, g.noClosing_join_texts⟩
      simp [restText, Group.text]
    have hopened (i : Nat) (hi : i < g.size) :
        expand (lead.text ++ g.alternative i ++ (l.text ++ restText rest)) =
          (picks (rest.map (·.1.size))).map fun pick =>
            lead.text ++ restPicked ((g, l) :: rest) (i :: pick) := by
      have := ih ((lead.append (g.alternatives.get ⟨i, hi⟩)).append l)
      simpa [Literal.append, restPicked, g.alternative_eq hi] using this
    calc expand (lead.text ++ restText ((g, l) :: rest))
        = g.texts.flatMap fun alt => expand (lead.text ++ alt ++ (l.text ++ restText rest)) := by
          rw [expand_of_group? hgroup, g.split_join_texts]
      _ = (List.range g.size).flatMap fun i =>
            expand (lead.text ++ g.alternative i ++ (l.text ++ restText rest)) := by
          rw [g.texts_eq_map_range, List.flatMap_map]
      _ = (List.range g.size).flatMap fun i => (picks (rest.map (·.1.size))).map fun pick =>
            lead.text ++ restPicked ((g, l) :: rest) (i :: pick) :=
          List.flatMap_congr fun i hi => hopened i (List.mem_range.1 hi)
      _ = _ := by
          simp only [List.map_cons, picks, List.map_flatMap, List.map_map]
          rfl

def Alternation.text (a : Alternation) : List Char := a.lead.text ++ restText a.rest

def Alternation.sizes (a : Alternation) : List Nat := a.rest.map (·.1.size)

/-- The text with one alternative picked for each group. -/
def Alternation.picked (a : Alternation) (pick : List Nat) : List Char :=
  a.lead.text ++ restPicked a.rest pick

/-- The results are the texts with one alternative picked for each group, once for each
way to pick and in the order of the places, the first group counting most. -/
theorem expandBraces_alternation (a : Alternation) :
    expandBraces (.ofList a.text) = (picks a.sizes).map (fun pick => .ofList (a.picked pick)) ∧
      (picks a.sizes).Pairwise (List.Lex (· < ·)) ∧
      ∀ pick, pick ∈ picks a.sizes ↔ List.Forall₂ (· < ·) pick a.sizes := by
  refine ⟨?_, pairwise_picks a.sizes, fun pick => mem_picks⟩
  rw [expandBraces, String.toList_ofList, Alternation.text, expand_rest, List.map_map]
  rfl

/-- The headers and sources of two directories, `{A,B}/*.{h,m}`. -/
def directories : Alternation where
  lead := ⟨[], by decide, by decide⟩
  rest := [
    (⟨[⟨['A'], by decide, by decide⟩, ⟨['B'], by decide, by decide⟩], by simp, by decide⟩,
      ⟨['/', '*', '.'], by decide, by decide⟩),
    (⟨[⟨['h'], by decide, by decide⟩, ⟨['m'], by decide, by decide⟩], by simp, by decide⟩,
      ⟨[], by decide, by decide⟩)]

theorem expandBraces_alternation_directories :
    String.ofList directories.text = "{A,B}/*.{h,m}" ∧
      expandBraces (.ofList directories.text) = ["A/*.h", "A/*.m", "B/*.h", "B/*.m"] := by
  constructor
  · decide +kernel
  · rw [(expandBraces_alternation directories).1]
    decide +kernel

end PodTarget.Glob
