import Mathlib.Data.List.Infix
import PodTarget.Proofs.BraceGroups

/-! Groups inside groups. A group ends at the first closing brace, so opening one up
takes away an opening brace and, with a comma, the opening braces of the other
alternatives, but only one closing brace. In a balanced pattern the closing braces that
are left over are those of a group that was cut at a comma, and there are none exactly
if no comma shares its group with another opening brace. -/

namespace PodTarget.Glob

open Text

/-- Every brace is matched: none is closed before it is opened, and all are closed. -/
structure Balanced (s : List Char) : Prop where
  front : ∀ t, t <+: s → t.count '}' ≤ t.count '{'
  total : s.count '}' = s.count '{'

instance (s : List Char) : Decidable (Balanced s) :=
  decidable_of_iff ((∀ t ∈ s.inits, t.count '}' ≤ t.count '{') ∧ s.count '}' = s.count '{')
    ⟨fun h => ⟨fun t ht => h.1 t ((List.mem_inits t s).2 ht), h.2⟩,
      fun h => ⟨fun t ht => h.front t ((List.mem_inits t s).1 ht), h.total⟩⟩

def depth (s : List Char) : Nat := s.count '{' - s.count '}'

/-- The next brace is a closing one. -/
def ClosesNext (s : List Char) : Prop := s.find? (fun c => c = '{' || c = '}') = some '}'

/-- A comma between two texts stands outside of all braces, or in a single pair of them
that is closed before another one is opened. -/
def FlatComma (front back : List Char) : Prop :=
  depth front = 0 ∨ depth front = 1 ∧ ClosesNext back

/-- No comma in braces has another pair of braces around it or behind it in its own. -/
def FlatAlternatives (s : List Char) : Prop :=
  ∀ front back, s = front ++ ',' :: back → FlatComma front back

theorem closesNext_append_iff {s t : List Char} (hs : '}' ∉ s) :
    ClosesNext (s ++ '}' :: t) ↔ '{' ∉ s := by
  rw [ClosesNext, List.find?_append]
  cases hf : s.find? (fun c => c = '{' || c = '}') with
  | none =>
    have hopening : '{' ∉ s := fun h => by simpa using List.find?_eq_none.1 hf '{' h
    simp [hopening]
  | some c =>
    have hmem : c ∈ s := List.mem_of_find?_eq_some hf
    have hbrace : c = '{' ∨ c = '}' := by simpa using List.find?_some hf
    rcases hbrace with rfl | rfl
    · simp [hmem]
    · exact absurd hmem hs

section Commas

variable {lead s t rest : List Char}

/-- The commas of a part of a text are flat, with what stands around it. -/
def FlatBetween (lead s rest : List Char) : Prop :=
  ∀ front back, s = front ++ ',' :: back → FlatComma (lead ++ front) (back ++ rest)

theorem flatAlternatives_iff : FlatAlternatives s ↔ FlatBetween [] s [] := by
  simp only [FlatAlternatives, FlatBetween, List.nil_append, List.append_nil]

theorem flatBetween_append_iff : FlatBetween lead (s ++ t) rest ↔
    FlatBetween lead s (t ++ rest) ∧ FlatBetween (lead ++ s) t rest := by
  constructor
  · intro h
    constructor
    · rintro front back rfl
      have := h front (back ++ t) (by simp)
      rwa [List.append_assoc] at this
    · rintro front back rfl
      have := h (s ++ front) back (by simp)
      rwa [← List.append_assoc] at this
  · rintro ⟨hs, ht⟩ front back hsplit
    rcases List.append_eq_append_iff.1 hsplit with ⟨front', rfl, rfl⟩ | ⟨back', rfl, hback⟩
    · have := ht front' back rfl
      rwa [List.append_assoc] at this
    · cases back' with
      | nil =>
        obtain rfl : t = ',' :: back := by simpa using hback.symm
        have := ht [] back rfl
        rwa [List.append_nil, List.append_nil] at this
      | cons c back' =>
        obtain ⟨rfl, rfl⟩ := List.cons.inj hback
        have := hs front back' rfl
        rwa [← List.append_assoc] at this

theorem flatBetween_of_notMem_comma (h : ',' ∉ s) : FlatBetween lead s rest := by
  rintro front back rfl
  exact absurd (by simp) h

theorem flatBetween_of_notMem_opening (hlead : '{' ∉ lead) (hs : '{' ∉ s) :
    FlatBetween lead s rest := by
  rintro front back rfl
  have hfront : '{' ∉ lead ++ front := by
    rw [List.mem_append, not_or]
    exact ⟨hlead, fun h => hs (List.mem_append_left _ h)⟩
  left
  rw [depth, List.count_eq_zero.2 hfront, Nat.zero_sub]

theorem flatBetween_group_iff {before inside : List Char} (tail : List Char)
    (hopening : '{' ∉ before) (hclosing : '}' ∉ before) (hinside : '}' ∉ inside) :
    FlatBetween (before ++ ['{']) inside ('}' :: tail) ↔ (',' ∈ inside → '{' ∉ inside) := by
  have hbefore : before.count '{' = 0 ∧ before.count '}' = 0 :=
    ⟨List.count_eq_zero.2 hopening, List.count_eq_zero.2 hclosing⟩
  have hdepth (front back : List Char) (h : inside = front ++ ',' :: back) :
      depth (before ++ ['{'] ++ front) = front.count '{' + 1 := by
    have hfront : front.count '}' = 0 :=
      List.count_eq_zero.2 fun hm => hinside (h ▸ List.mem_append_left _ hm)
    simp [depth, hbefore, hfront]
  constructor
  · intro h hcomma
    obtain ⟨front, back, hsplit⟩ := List.append_of_mem hcomma
    have hback : '}' ∉ back := fun hm => hinside (by rw [hsplit]; simp [hm])
    have hflat := h front back hsplit
    rw [FlatComma, hdepth front back hsplit, closesNext_append_iff hback] at hflat
    rw [hsplit, List.mem_append, List.mem_cons]
    rcases hflat with hflat | ⟨hone, hnext⟩
    · omega
    · have hfront : '{' ∉ front := List.count_eq_zero.1 (by omega)
      simp [hfront, hnext]
  · intro h front back hsplit
    have hopen : '{' ∉ inside := h (hsplit ▸ by simp)
    have hfront : front.count '{' = 0 :=
      List.count_eq_zero.2 fun hm => hopen (hsplit ▸ List.mem_append_left _ hm)
    right
    constructor
    · rw [hdepth front back hsplit, hfront]
    · rw [closesNext_append_iff fun hm => hinside (by rw [hsplit]; simp [hm])]
      exact fun hm => hopen (by rw [hsplit]; simp [hm])

theorem flatBetween_congr {lead' : List Char}
    (h : lead.count '{' + lead'.count '}' = lead'.count '{' + lead.count '}') :
    FlatBetween lead s rest ↔ FlatBetween lead' s rest := by
  have hdepth (front : List Char) : depth (lead ++ front) = depth (lead' ++ front) := by
    unfold depth
    simp only [List.count_append]
    omega
  unfold FlatBetween FlatComma
  simp only [hdepth]

end Commas

theorem count_eq_of_mem_split {inside alt : List Char} (hflat : ',' ∈ inside → '{' ∉ inside)
    (halt : alt ∈ split [','] inside) : alt.count '{' = inside.count '{' := by
  by_cases hcomma : ',' ∈ inside
  · have hinside := hflat hcomma
    have hnone : '{' ∉ alt := fun h => hinside ((sublist_of_mem_split halt).subset h)
    rw [List.count_eq_zero.2 hinside, List.count_eq_zero.2 hnone]
  · rw [split_of_notMem hcomma, List.mem_singleton] at halt
    rw [halt]

/-- Where a comma stands beside an opening brace, some alternative lacks that brace. -/
theorem exists_count_lt {inside : List Char} (hcomma : ',' ∈ inside) (hopening : '{' ∈ inside) :
    ∃ alt ∈ split [','] inside, alt.count '{' < inside.count '{' := by
  obtain ⟨a, b, rfl, ha⟩ := List.eq_append_cons_of_mem hcomma
  rw [split_append_of_notMem b ha]
  have hcount : (a ++ ',' :: b).count '{' = a.count '{' + b.count '{' := by simp
  by_cases hb : '{' ∈ b
  · refine ⟨a, List.mem_cons_self, ?_⟩
    have := List.count_pos_iff.2 hb
    omega
  · have ha : '{' ∈ a := by simpa [hb] using hopening
    have hhead := List.head_mem (split_ne_nil [','] b)
    refine ⟨_, List.mem_cons_of_mem a hhead, ?_⟩
    rw [List.count_eq_zero.2 fun h => hb ((sublist_of_mem_split hhead).subset h), hcount]
    have := List.count_pos_iff.2 ha
    omega

theorem Balanced.notMem_of_not_hasGroup {s : List Char} (h : Balanced s) (hg : ¬HasGroup s) :
    '{' ∉ s ∧ '}' ∉ s := by
  have hopening : '{' ∉ s := by
    intro hmem
    obtain ⟨a, b, rfl, ha⟩ := List.eq_append_cons_of_mem hmem
    have hfront := h.front a (List.prefix_append a _)
    rw [List.count_eq_zero.2 ha] at hfront
    have htotal : a.count '}' + b.count '}' = b.count '{' + 1 := by
      simpa [List.count_eq_zero.2 ha] using h.total
    have hclosing : '}' ∈ b := List.count_pos_iff.1 (by omega)
    exact hg (hasGroup_of_mem hclosing)
  have htotal := h.total
  rw [List.count_eq_zero.2 hopening] at htotal
  exact ⟨hopening, List.count_eq_zero.1 htotal⟩

section Opened

variable {s before inside tail alt : List Char}

theorem Balanced.notMem_before (h : Balanced s) (hg : group? s = some (before, inside, tail)) :
    '}' ∉ before := by
  obtain ⟨rfl, hopening, -⟩ := group?_eq_some_iff.1 hg
  have := h.front before (List.prefix_append before _)
  rw [List.count_eq_zero.2 hopening] at this
  exact List.count_eq_zero.1 (Nat.le_zero.1 this)

/-- With all the opening braces of the group in the alternative, one brace of each kind is
taken away, whatever follows. -/
theorem count_opened (before : List Char) (hinside : '}' ∉ inside)
    (halt : alt ∈ split [','] inside) (hcount : alt.count '{' = inside.count '{')
    (rest : List Char) :
    (before ++ '{' :: (inside ++ '}' :: rest)).count '{' =
        (before ++ alt ++ rest).count '{' + 1 ∧
      (before ++ '{' :: (inside ++ '}' :: rest)).count '}' =
        (before ++ alt ++ rest).count '}' + 1 := by
  have halt : alt.count '}' = 0 :=
    List.count_eq_zero.2 fun h => hinside ((sublist_of_mem_split halt).subset h)
  have hinside : inside.count '}' = 0 := List.count_eq_zero.2 hinside
  rw [count_open_group, count_close_group]
  simp only [List.count_append]
  constructor <;> omega

theorem Balanced.opened (h : Balanced s) (hg : group? s = some (before, inside, tail))
    (halt : alt ∈ split [','] inside) (hcount : alt.count '{' = inside.count '{') :
    Balanced (before ++ alt ++ tail) := by
  have hbefore := h.notMem_before hg
  obtain ⟨rfl, -, hinside⟩ := group?_eq_some_iff.1 hg
  have hcounts := count_opened before hinside halt hcount
  constructor
  · intro t ht
    rcases List.prefix_or_prefix_of_prefix ht (List.prefix_append _ tail) with ht' | ⟨rest, rfl⟩
    · -- no brace is closed before the text behind the group
      have hclosing : '}' ∉ before ++ alt := by
        rw [List.mem_append, not_or]
        exact ⟨hbefore, fun hm => hinside ((sublist_of_mem_split halt).subset hm)⟩
      rw [List.count_eq_zero.2 fun hm => hclosing (ht'.subset hm)]
      exact Nat.zero_le _
    · have hrest : rest <+: tail := (List.prefix_append_right_inj _).1 ht
      have hfront := h.front (before ++ '{' :: (inside ++ '}' :: rest)) (by simpa using hrest)
      have := hcounts rest
      omega
  · have htotal := h.total
    have := hcounts tail
    omega

theorem group_append (before inside rest : List Char) : before ++ ['{'] ++ inside ++ ['}'] ++ rest =
    before ++ '{' :: (inside ++ '}' :: rest) := by
  simp

/-- Commas in front of the first group are in no braces, so those in it and behind it decide. -/
theorem flatAlternatives_iff_of_group? (h : Balanced s)
    (hg : group? s = some (before, inside, tail)) :
    FlatAlternatives s ↔ (',' ∈ inside → '{' ∉ inside) ∧
      FlatBetween (before ++ ['{'] ++ inside ++ ['}']) tail [] := by
  have hbefore := h.notMem_before hg
  obtain ⟨rfl, hopening, hinside⟩ := group?_eq_some_iff.1 hg
  have hfront : FlatBetween [] (before ++ ['{']) (inside ++ (['}'] ++ tail)) :=
    flatBetween_append_iff.2 ⟨flatBetween_of_notMem_opening List.not_mem_nil hopening,
      flatBetween_of_notMem_comma (by decide)⟩
  have hclosing : FlatBetween (before ++ ['{'] ++ inside) ['}'] tail :=
    flatBetween_of_notMem_comma (by decide)
  rw [← flatBetween_group_iff tail hopening hbefore hinside, ← group_append,
    flatAlternatives_iff, flatBetween_append_iff, flatBetween_append_iff, flatBetween_append_iff,
    List.append_nil]
  exact and_congr_left' ((and_iff_left hclosing).trans (and_iff_right hfront))

theorem flatAlternatives_opened_iff (h : Balanced s)
    (hg : group? s = some (before, inside, tail)) (hflat : ',' ∈ inside → '{' ∉ inside)
    (halt : alt ∈ split [','] inside) :
    FlatAlternatives (before ++ alt ++ tail) ↔ FlatAlternatives s := by
  rw [flatAlternatives_iff_of_group? h hg, and_iff_right hflat]
  obtain ⟨rfl, hopening, hinside⟩ := group?_eq_some_iff.1 hg
  have hopened : FlatBetween [] (before ++ alt) tail :=
    flatBetween_append_iff.2 ⟨flatBetween_of_notMem_opening List.not_mem_nil hopening,
      flatBetween_of_notMem_comma (notMem_of_mem_split halt)⟩
  rw [flatAlternatives_iff, flatBetween_append_iff, List.append_nil, and_iff_right hopened]
  have hcounts := count_opened before hinside halt (count_eq_of_mem_split hflat halt) []
  have hgroup := group_append before inside []
  rw [List.append_nil] at hcounts hgroup
  refine flatBetween_congr ?_
  rw [hgroup, List.nil_append]
  omega

/-- An opened pattern never has more opening braces to spare than the pattern had. -/
theorem count_of_mem_expand {result : List Char} (h : result ∈ expand s) :
    s.count '}' + result.count '{' ≤ s.count '{' + result.count '}' := by
  refine mem_expand_induction h ?_ ?_
  · intro _
    rw [Nat.add_comm]
  · intro s before inside tail alt hg halt hle
    obtain ⟨rfl, -, hinside⟩ := group?_eq_some_iff.1 hg
    have hopening := (sublist_of_mem_split halt).count_le '{'
    rw [count_open_group, count_close_group, List.count_eq_zero.2 hinside]
    simp only [List.count_append] at hle
    omega

end Opened

/-- Every opening brace is closed by a later one. -/
def Closes (s : List Char) : Prop := ∀ t, t <:+ s → t.count '{' ≤ t.count '}'

theorem Balanced.closes {s : List Char} (h : Balanced s) : Closes s := by
  rintro t ⟨front, rfl⟩
  have hfront := h.front front (List.prefix_append front t)
  have htotal := h.total
  rw [List.count_append, List.count_append] at htotal
  omega

theorem Closes.opened {s before inside tail alt : List Char} (h : Closes s)
    (hg : group? s = some (before, inside, tail)) (halt : alt ∈ split [','] inside) :
    Closes (before ++ alt ++ tail) := by
  obtain ⟨rfl, hopening, hinside⟩ := group?_eq_some_iff.1 hg
  intro t ht
  rcases List.suffix_or_suffix_of_suffix ht (List.suffix_append _ tail) with ht' | ⟨front, rfl⟩
  · refine h t (ht'.trans ⟨before ++ '{' :: (inside ++ ['}']), ?_⟩)
    simp
  · -- what follows the group has closing braces enough for all that were in it
    have hgroup : inside.count '{' + tail.count '{' ≤ tail.count '}' := by
      simpa [List.count_eq_zero.2 hinside] using
        h ('{' :: (inside ++ '}' :: tail)) (List.suffix_append before _)
    have hfront : front <:+ before ++ alt := List.suffix_append_self_iff.1 ht
    have hle := hfront.sublist.count_le '{'
    have halt := (sublist_of_mem_split halt).count_le '{'
    rw [List.count_append, List.count_eq_zero.2 hopening] at hle
    rw [List.count_append, List.count_append]
    omega

theorem Closes.notMem_of_mem_expand {s result : List Char} (h : Closes s)
    (hr : result ∈ expand s) : '{' ∉ result := by
  refine mem_expand_induction (motive := fun s => Closes s → '{' ∉ result) hr ?_ ?_ h
  · intro hs h hmem
    obtain ⟨a, b, rfl, -⟩ := List.eq_append_cons_of_mem hmem
    have hb : b.count '{' + 1 ≤ b.count '}' := by
      simpa using h ('{' :: b) (List.suffix_append a _)
    have hclosing : '}' ∈ b := List.count_pos_iff.1 (by omega)
    exact hs (hasGroup_of_mem hclosing)
  · intro s before inside tail alt hg halt ih h
    exact ih (h.opened hg halt)

/-- A group that is cut between its braces has a closing brace to spare in some result. -/
theorem exists_closing {s before inside tail : List Char} (h : Balanced s)
    (hg : group? s = some (before, inside, tail)) (hcomma : ',' ∈ inside)
    (hopening : '{' ∈ inside) : ∃ result ∈ expand s, '}' ∈ result := by
  obtain ⟨alt, halt, hlt⟩ := exists_count_lt hcomma hopening
  obtain ⟨result, hmem⟩ := List.exists_mem_of_ne_nil _ (expand_ne_nil (before ++ alt ++ tail))
  refine ⟨result, ?_, List.count_pos_iff.1 ?_⟩
  · rw [expand_of_group? hg]
    exact List.mem_flatMap.2 ⟨alt, halt, hmem⟩
  · have hspare := count_of_mem_expand hmem
    have htotal := h.total
    obtain ⟨rfl, -, hinside⟩ := group?_eq_some_iff.1 hg
    rw [count_open_group, count_close_group, List.count_eq_zero.2 hinside] at htotal
    simp only [List.count_append] at hspare
    omega

theorem notMem_closing_iff {s : List Char} (h : Balanced s) :
    (∀ result ∈ expand s, '}' ∉ result) ↔ FlatAlternatives s := by
  induction s using expand_induction with
  | plain s hs =>
    obtain ⟨hopening, hclosing⟩ := h.notMem_of_not_hasGroup hs
    have hflat : FlatAlternatives s :=
      flatAlternatives_iff.2 (flatBetween_of_notMem_opening List.not_mem_nil hopening)
    rw [expand_of_not_hasGroup hs, List.forall_mem_singleton]
    exact iff_of_true hclosing hflat
  | opened s before inside tail hg ih =>
    have hhead := List.head_mem (split_ne_nil [','] inside)
    by_cases hflat : ',' ∈ inside → '{' ∉ inside
    · have hall (alt : List Char) (halt : alt ∈ split [','] inside) :
          (∀ result ∈ expand (before ++ alt ++ tail), '}' ∉ result) ↔ FlatAlternatives s := by
        rw [ih alt halt (h.opened hg halt (count_eq_of_mem_split hflat halt))]
        exact flatAlternatives_opened_iff h hg hflat halt
      rw [expand_of_group? hg, List.forall_mem_flatMap]
      exact ⟨fun hno => (hall _ hhead).1 (hno _ hhead), fun hs alt halt => (hall alt halt).2 hs⟩
    · rw [flatAlternatives_iff_of_group? h hg]
      obtain ⟨hcomma, hopening⟩ := Classical.not_imp.1 hflat
      obtain ⟨result, hr, hclosing⟩ := exists_closing h hg hcomma (Classical.not_not.1 hopening)
      exact iff_of_false (fun hno => hno result hr hclosing) fun hs => hflat hs.1

/-- Of a balanced pattern no result has an opening brace, and none has a closing one
exactly if its alternatives are flat. -/
theorem expandBraces_balanced {pattern : String} (h : Balanced pattern.toList) :
    ((∀ result ∈ expandBraces pattern, '{' ∉ result.toList ∧ '}' ∉ result.toList) ↔
        FlatAlternatives pattern.toList) ∧
      ∀ result ∈ expandBraces pattern, '{' ∉ result.toList := by
  have hopening (result : List Char) (hr : result ∈ expand pattern.toList) : '{' ∉ result :=
    h.closes.notMem_of_mem_expand hr
  have hchars (P : List Char → Prop) : (∀ result ∈ expandBraces pattern, P result.toList) ↔
      ∀ result ∈ expand pattern.toList, P result := by
    rw [expandBraces, List.forall_mem_map]
    simp only [String.toList_ofList]
  rw [hchars fun s => '{' ∉ s ∧ '}' ∉ s, hchars fun s => '{' ∉ s, ← notMem_closing_iff h]
  refine ⟨?_, hopening⟩
  exact forall₂_congr fun result hr => and_iff_right (hopening result hr)

theorem expandBraces_balanced_nested :
    let pattern := "Kit/{{Core},UI}.{h,m}"
    Balanced pattern.toList ∧ FlatAlternatives pattern.toList ∧
      expandBraces pattern = ["Kit/Core.h", "Kit/Core.m", "Kit/UI.h", "Kit/UI.m"] ∧
      ∀ result ∈ expandBraces pattern, '{' ∉ result.toList := by
  intro pattern
  have h : Balanced pattern.toList := by decide +kernel
  obtain ⟨hiff, hopening⟩ := expandBraces_balanced h
  exact ⟨h, hiff.1 (by decide +kernel), by decide +kernel, hopening⟩

theorem nested_alternatives_leave_braces :
    Balanced "{a,{b,c}}".toList ∧ ¬FlatAlternatives "{a,{b,c}}".toList ∧
      expandBraces "{a,{b,c}}" = ["a\x7d", "b", "c\x7d"] := by
  refine ⟨by decide +kernel, fun h => ?_, by decide +kernel⟩
  have := h ['{', 'a'] ['{', 'b', ',', 'c', '}', '}'] (by decide +kernel)
  exact absurd this (by unfold FlatComma ClosesNext; decide +kernel)

end PodTarget.Glob
