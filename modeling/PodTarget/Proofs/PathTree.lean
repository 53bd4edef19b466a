import PodTarget.Proofs.Splitting
import PodTarget.Proofs.Subtrees

/-! The tree of a pod and the paths of its subspecs. Where a subspec stands is told by which
one to take at each level, and subspecs are flattened in the order of these positions. If
the subspecs of one have different names, none of them empty or with a slash in it, then a
path comes apart into the names on the way to its subspec, and these lead to no other one.
So a path goes on after another one with a slash exactly if its subspec is nested there. -/

namespace PodTarget

open Text

/-- A podspec as it stands in another one: which subspec to take at each level on the way to
it, counted from zero, and the names of these. -/
structure Occurrence where
  position : List Nat
  names : List String
  subspec : Podspec

namespace Occurrence

def path (e : Occurrence) : String := "/".intercalate e.names

/-- What occurs in a subspec, as it occurs one level above it. -/
def under (i : Nat) (name : String) (e : Occurrence) : Occurrence :=
  ⟨i :: e.position, name :: e.names, e.subspec⟩

/-- A subspec comes before those nested in it, and of two others the one comes first that is
in the earlier subspec at the level where they part. -/
def Before (e f : Occurrence) : Prop := List.Lex (· < ·) e.position f.position

end Occurrence

theorem foldl_childPath {p : String} (hp : p ≠ "") (names : List String) :
    names.foldl childPath p = "/".intercalate (p :: names) := by
  induction names generalizing p with
  | nil => exact String.intercalate_singleton.symm
  | cons n names ih =>
    have hchild : childPath p n = p ++ "/" ++ n := by simp [childPath, hp]
    rw [List.foldl_cons, ih (childPath_ne_empty hp n), hchild, String.intercalate_cons_cons,
      String.intercalate_cons_append]

namespace Podspec

/-- The subspec at a position in a podspec, and the names on the way to it. -/
inductive Nests : Podspec → List Nat → List String → Podspec → Prop
  | here {s : Podspec} : Nests s [] [] s
  | down {s t u : Podspec} {i : Nat} {p : List Nat} {names : List String}
      (ht : s.subspecs[i]? = some t) (hu : Nests t p names u) : Nests s (i :: p) (t.name :: names) u

/-- At every level subspecs have different names, none of them empty or with a slash. -/
inductive WellNamed : Podspec → Prop
  | intro {s : Podspec} (distinct : (s.subspecs.map name).Nodup)
      (plain : ∀ t ∈ s.subspecs, t.name ≠ "" ∧ '/' ∉ t.name.toList)
      (below : ∀ t ∈ s.subspecs, WellNamed t) : WellNamed s

mutual

/-- A podspec and all that is nested in it. -/
def occurrences : Podspec → List Occurrence
  | ⟨d, subspecs⟩ => ⟨[], [], ⟨d, subspecs⟩⟩ :: occurrencesFrom 0 subspecs

/-- What is in some subspecs, the first of which has the given number. -/
def occurrencesFrom : Nat → List Podspec → List Occurrence
  | _, [] => []
  | i, s :: ss => (occurrences s).map (.under i s.name) ++ occurrencesFrom (i + 1) ss

end

/-- All that is nested in a podspec, at whatever depth. -/
def inside (s : Podspec) : List Occurrence := occurrencesFrom 0 s.subspecs

section Occurrences

variable {s : Podspec} {ss : List Podspec} {i : Nat} {e : Occurrence}

theorem occurrences_eq (s : Podspec) :
    occurrences s = ⟨[], [], s⟩ :: s.inside := by
  cases s
  rw [occurrences, inside]

theorem mem_occurrencesFrom_iff : e ∈ occurrencesFrom i ss ↔
    ∃ j t, ss[j]? = some t ∧ ∃ e' ∈ occurrences t, e = e'.under (i + j) t.name := by
  induction ss generalizing i with
  | nil => simp [occurrencesFrom]
  | cons s ss ih =>
    rw [occurrencesFrom, List.mem_append, List.mem_map, ih]
    constructor
    · rintro (⟨e', he', rfl⟩ | ⟨j, t, ht, e', he', rfl⟩)
      · exact ⟨0, s, rfl, e', he', rfl⟩
      · exact ⟨j + 1, t, ht, e', he', by rw [Nat.add_right_comm, Nat.add_assoc]⟩
    · rintro ⟨_ | j, t, ht, e', he', rfl⟩
      · obtain rfl : s = t := Option.some.inj ht
        exact Or.inl ⟨e', he', rfl⟩
      · exact Or.inr ⟨j, t, ht, e', he', by rw [Nat.add_right_comm, Nat.add_assoc]⟩

theorem nests_of_mem_occurrences {p : List Nat} {names : List String} {t : Podspec}
    (h : ⟨p, names, t⟩ ∈ occurrences s) : s.Nests p names t := by
  induction p generalizing s names with
  | nil =>
    rw [occurrences_eq, List.mem_cons, inside, mem_occurrencesFrom_iff] at h
    obtain h | ⟨j, u, -, e, -, h⟩ := h
    · cases h
      exact .here
    · cases h
  | cons i p ih =>
    rw [occurrences_eq, List.mem_cons, inside, mem_occurrencesFrom_iff] at h
    obtain h | ⟨j, u, hu, e, he, h⟩ := h
    · cases h
    · cases h
      rw [Nat.zero_add]
      exact .down hu (ih he)

theorem Nests.mem_occurrences {p : List Nat} {names : List String} {t : Podspec}
    (h : s.Nests p names t) : ⟨p, names, t⟩ ∈ occurrences s := by
  induction h with
  | here =>
    rw [occurrences_eq]
    exact List.mem_cons_self
  | @down s t u i p names ht _ ih =>
    rw [occurrences_eq]
    refine List.mem_cons_of_mem _ (mem_occurrencesFrom_iff.2 ⟨i, t, ht, _, ih, ?_⟩)
    rw [Nat.zero_add]
    rfl

theorem mem_inside_iff : e ∈ s.inside ↔
    e.position ≠ [] ∧ s.Nests e.position e.names e.subspec := by
  constructor
  · intro he
    have hmem : e ∈ occurrences s := occurrences_eq s ▸ List.mem_cons_of_mem _ he
    obtain ⟨j, t, -, e', -, rfl⟩ := mem_occurrencesFrom_iff.1 he
    exact ⟨List.cons_ne_nil _ _, nests_of_mem_occurrences hmem⟩
  · rintro ⟨hp, h⟩
    have hmem := h.mem_occurrences
    rw [occurrences_eq, List.mem_cons] at hmem
    obtain hself | he := hmem
    · exact absurd (congrArg Occurrence.position hself) hp
    · exact he

mutual

theorem pairwise_occurrences : ∀ s : Podspec, (occurrences s).Pairwise Occurrence.Before
  | ⟨d, subspecs⟩ => by
    rw [occurrences, List.pairwise_cons]
    refine ⟨fun e he => ?_, pairwise_occurrencesFrom 0 subspecs⟩
    obtain ⟨j, t, -, e', -, rfl⟩ := mem_occurrencesFrom_iff.1 he
    exact .nil

theorem pairwise_occurrencesFrom : ∀ (i : Nat) (ss : List Podspec),
    (occurrencesFrom i ss).Pairwise Occurrence.Before
  | _, [] => by
    rw [occurrencesFrom]
    exact .nil
  | i, s :: ss => by
    rw [occurrencesFrom, List.pairwise_append, List.pairwise_map]
    refine ⟨(pairwise_occurrences s).imp .cons, pairwise_occurrencesFrom (i + 1) ss, ?_⟩
    intro e he f hf
    obtain ⟨e', -, rfl⟩ := List.mem_map.1 he
    obtain ⟨j, t, -, f', -, rfl⟩ := mem_occurrencesFrom_iff.1 hf
    exact .rel (by omega)

end

mutual

theorem subtreesBelow_eq_map : ∀ (s : Podspec) (parent : String), subtreesBelow s parent =
    (occurrences s).map fun e => (e.names.foldl childPath (childPath parent s.name), e.subspec)
  | ⟨d, subspecs⟩, parent => by
    rw [subtreesBelow, occurrences, List.map_cons, subtreesAll_eq_map 0 subspecs]
    rfl

theorem subtreesAll_eq_map : ∀ (i : Nat) (ss : List Podspec) (parent : String),
    subtreesAll ss parent =
      (occurrencesFrom i ss).map fun e => (e.names.foldl childPath parent, e.subspec)
  | _, [], _ => by rw [subtreesAll, occurrencesFrom, List.map_nil]
  | i, s :: ss, parent => by
    rw [subtreesAll, occurrencesFrom, List.map_append, List.map_map, subtreesBelow_eq_map s,
      subtreesAll_eq_map (i + 1) ss]
    rfl

end

end Occurrences

section Names

variable {s t u : Podspec} {p q : List Nat} {names more : List String}

theorem Nests.trans (ht : s.Nests p names t) (hu : t.Nests q more u) :
    s.Nests (p ++ q) (names ++ more) u := by
  induction ht with
  | here => exact hu
  | down ht _ ih => exact .down ht (ih hu)

/-- There is one subspec at a position, and one way to it. -/
theorem Nests.unique (ht : s.Nests p names t) (hu : s.Nests p more u) : names = more ∧ t = u := by
  induction ht generalizing more with
  | here =>
    cases hu
    exact ⟨rfl, rfl⟩
  | down ht _ ih =>
    cases hu with
    | down hu hrest =>
      obtain rfl := Option.some.inj (ht.symm.trans hu)
      obtain ⟨rfl, rfl⟩ := ih hrest
      exact ⟨rfl, rfl⟩

theorem Nests.names_ne_nil (ht : s.Nests p names t) (hp : p ≠ []) : names ≠ [] := by
  cases ht with
  | here => exact absurd rfl hp
  | down => exact List.cons_ne_nil _ _

theorem index_eq_of_name_eq {ss : List Podspec} (distinct : (ss.map name).Nodup) {i j : Nat}
    (ht : ss[i]? = some t) (hu : ss[j]? = some u) (h : t.name = u.name) : i = j := by
  have hnames : (ss.map name)[i]? = (ss.map name)[j]? := by
    rw [List.getElem?_map, List.getElem?_map, ht, hu, Option.map_some, Option.map_some, h]
  have hi : i < (ss.map name).length := by
    rw [List.length_map]
    exact (List.getElem?_eq_some_iff.1 ht).1
  exact (List.getElem?_inj hi distinct).1 hnames

namespace WellNamed

theorem plain_names (h : s.WellNamed) (ht : s.Nests p names t) :
    ∀ n ∈ names, n ≠ "" ∧ '/' ∉ n.toList := by
  induction ht with
  | here => exact List.forall_mem_nil _
  | down ht _ ih =>
    obtain ⟨-, plain, below⟩ := h
    have hmem := List.mem_of_getElem? ht
    exact List.forall_mem_cons.2 ⟨plain _ hmem, ih (below _ hmem)⟩

/-- Names lead one way only, so if some lead to a subspec, any that start with these lead to
one nested in it. -/
theorem nests_append (h : s.WellNamed) (ht : s.Nests p names t) (hu : s.Nests q (names ++ more) u) :
    ∃ r, q = p ++ r ∧ t.Nests r more u := by
  induction ht generalizing q with
  | here => exact ⟨q, rfl, hu⟩
  | @down s t _ i p names ht _ ih =>
    obtain ⟨distinct, -, below⟩ := h
    -- The first of the names tells which subspec both go down to.
    generalize hall : t.name :: names ++ more = all at hu
    cases hu with
    | here => nomatch hall
    | @down _ t' _ j q rest ht' hrest =>
      obtain ⟨hname, rfl⟩ := List.cons_eq_cons.1 hall
      obtain rfl := index_eq_of_name_eq distinct ht ht' hname
      obtain rfl := Option.some.inj (ht.symm.trans ht')
      obtain ⟨r, rfl, hr⟩ := ih (below _ (List.mem_of_getElem? ht)) hrest
      exact ⟨r, rfl, hr⟩

theorem position_unique (h : s.WellNamed) (ht : s.Nests p names t) (hu : s.Nests q names u) :
    p = q := by
  rw [← List.append_nil names] at hu
  obtain ⟨r, rfl, hr⟩ := h.nests_append ht hu
  cases hr
  exact (List.append_nil p).symm

end WellNamed

end Names

section Paths

variable {s : Podspec} {e f : Occurrence}

theorem split_path (h : s.WellNamed) (he : e ∈ s.inside) :
    split ['/'] e.path.toList = e.names.map String.toList := by
  obtain ⟨hp, hnests⟩ := mem_inside_iff.1 he
  rw [Occurrence.path, String.toList_intercalate]
  refine split_join (by simpa using hnests.names_ne_nil hp) fun part hpart => ?_
  obtain ⟨n, hn, rfl⟩ := List.mem_map.1 hpart
  exact (h.plain_names hnests n hn).2

theorem foldl_names (h : s.WellNamed) (he : e ∈ s.inside) :
    e.names.foldl childPath "" = e.path := by
  obtain ⟨hp, hnests⟩ := mem_inside_iff.1 he
  obtain ⟨n, rest, hnames⟩ := List.exists_cons_of_ne_nil (hnests.names_ne_nil hp)
  have hn : n ≠ "" := (h.plain_names hnests n (by simp [hnames])).1
  rw [Occurrence.path, hnames, List.foldl_cons, ← foldl_childPath hn]
  rfl

theorem names_eq_of_map_toList {l l' : List String}
    (h : l.map String.toList = l'.map String.toList) : l = l' :=
  List.map_injective_iff.2 (fun _ _ => String.toList_injective) h

/-- Subspecs with one path are the same one. -/
theorem position_eq_of_path_eq (h : s.WellNamed) (he : e ∈ s.inside) (hf : f ∈ s.inside)
    (hpath : e.path = f.path) : e.position = f.position := by
  have hsplit := split_path h he
  rw [hpath, split_path h hf] at hsplit
  have hnests := (mem_inside_iff.1 hf).2
  rw [names_eq_of_map_toList hsplit] at hnests
  exact h.position_unique (mem_inside_iff.1 he).2 hnests

theorem isBelow_path_iff (h : s.WellNamed) (he : e ∈ s.inside) (hf : f ∈ s.inside) :
    isBelow f.path e.path = true ↔ ∃ r names, r ≠ [] ∧ f.position = e.position ++ r ∧
      e.subspec.Nests r names f.subspec := by
  obtain ⟨hep, hen⟩ := mem_inside_iff.1 he
  obtain ⟨-, hfn⟩ := mem_inside_iff.1 hf
  rw [isBelow_iff]
  constructor
  · rintro ⟨rest, hrest⟩
    have hpath : f.path.toList = e.path.toList ++ '/' :: rest.toList := by simp [hrest]
    have hsplit := split_path h hf
    rw [hpath, split_append_cons, split_path h he] at hsplit
    obtain ⟨front, more, hnames, hfront, hmore⟩ := List.map_eq_append_iff.1 hsplit.symm
    obtain rfl : front = e.names := names_eq_of_map_toList hfront
    rw [hnames] at hfn
    obtain ⟨r, hr, hnests⟩ := h.nests_append hen hfn
    refine ⟨r, more, ?_, hr, hnests⟩
    rintro rfl
    obtain ⟨rfl, -⟩ := hnests.unique .here
    exact split_ne_nil _ _ hmore.symm
  · rintro ⟨r, names, hr, hposition, hnests⟩
    rw [hposition] at hfn
    obtain ⟨hnames, -⟩ := hfn.unique (hen.trans hnests)
    refine ⟨"/".intercalate names, ?_⟩
    rw [Occurrence.path, hnames, String.intercalate_append_of_ne_nil (hen.names_ne_nil hep)
      (hnests.names_ne_nil hr), Occurrence.path]

theorem flatten_eq_map_inside (h : s.WellNamed) :
    s.flatten = s.inside.map fun e => (e.path, e.subspec.declaration) := by
  rw [flatten, subtrees, nested, subtreesAll_eq_map 0, List.map_map]
  refine List.map_congr_left fun e he => ?_
  rw [Function.comp_apply, foldl_names h he]

theorem nodup_paths (h : s.WellNamed) : s.paths.Nodup := by
  rw [paths, flatten_eq_map_inside h, List.map_map, List.Nodup, List.pairwise_map]
  refine (pairwise_occurrencesFrom 0 s.subspecs).imp_of_mem fun he hf hbefore heq => ?_
  rw [Occurrence.Before, position_eq_of_path_eq h he hf heq] at hbefore
  exact List.lex_irrefl (fun _ => Nat.lt_irrefl _) _ hbefore

end Paths

/-- The subspecs of a well named pod are flattened once each in the order of their positions,
a path comes apart into the names on the way, no two of the paths are the same, and one goes
on after another one with a slash exactly if its subspec is nested in the other one's. -/
theorem flatten_tells_tree {s : Podspec} (h : s.WellNamed) : ∃ listed : List Occurrence,
    (∀ e, e ∈ listed ↔ e.position ≠ [] ∧ s.Nests e.position e.names e.subspec) ∧
    listed.Pairwise Occurrence.Before ∧
    s.flatten = listed.map (fun e => (e.path, e.subspec.declaration)) ∧
    s.paths.Nodup ∧
    (∀ e ∈ listed, split ['/'] e.path.toList = e.names.map String.toList) ∧
    ∀ e ∈ listed, ∀ f ∈ listed, isBelow f.path e.path = true ↔
      ∃ r names, r ≠ [] ∧ f.position = e.position ++ r ∧ e.subspec.Nests r names f.subspec :=
  ⟨s.inside, fun _ => mem_inside_iff, pairwise_occurrencesFrom 0 s.subspecs,
    flatten_eq_map_inside h, nodup_paths h, fun _ he => split_path h he,
    fun _ he _ hf => isBelow_path_iff h he hf⟩

/-- A subspec whose name starts like that of the one before it, where `Core` has a `Data`. -/
def siblings : Podspec :=
  ⟨.named "Foo", [⟨.named "Core", [⟨.named "Data", []⟩]⟩, ⟨.named "CoreData", []⟩,
    ⟨.named "UI", [⟨.named "Core", []⟩]⟩]⟩

theorem wellNamed_siblings : siblings.WellNamed := by
  have hleaf (n : String) : WellNamed ⟨.named n, []⟩ :=
    .intro List.nodup_nil (List.forall_mem_nil _) (List.forall_mem_nil _)
  have hsingle (n m : String) (hm : m ≠ "" ∧ '/' ∉ m.toList) :
      WellNamed ⟨.named n, [⟨.named m, []⟩]⟩ :=
    .intro (by simp) (by simpa [name, Declaration.named] using hm) (by simpa using hleaf m)
  refine .intro (by decide +kernel) ?_ ?_
  · simp [siblings, name, Declaration.named]
  · simpa [siblings] using ⟨hsingle "Core" "Data" (by decide), hleaf "CoreData",
      hsingle "UI" "Core" (by decide)⟩

theorem flatten_tells_tree_siblings : siblings.WellNamed ∧
    siblings.paths = ["Core", "Core/Data", "CoreData", "UI", "UI/Core"] ∧ siblings.paths.Nodup ∧
    isBelow "Core/Data" "Core" = true ∧ isBelow "CoreData" "Core" = false := by
  obtain ⟨listed, hmem, -, -, hnodup, -, hbelow⟩ := flatten_tells_tree wellNamed_siblings
  let data : Podspec := ⟨.named "Data", []⟩
  let core : Podspec := ⟨.named "Core", [data]⟩
  let coreData : Podspec := ⟨.named "CoreData", []⟩
  have hcore : siblings.Nests [0] [core.name] core := .down rfl .here
  have hinner : core.Nests [0] [data.name] data := .down rfl .here
  have hdata : siblings.Nests [0, 0] [core.name, data.name] data := hcore.trans hinner
  have hcoreData : siblings.Nests [1] [coreData.name] coreData := .down rfl .here
  have listed_of_nests {p names t} (hp : p ≠ []) (ht : siblings.Nests p names t) :
      ⟨p, names, t⟩ ∈ listed := (hmem _).2 ⟨hp, ht⟩
  have hdown := hbelow _ (listed_of_nests (by decide) hcore) _ (listed_of_nests (by decide) hdata)
  have hbeside :=
    hbelow _ (listed_of_nests (by decide) hcore) _ (listed_of_nests (by decide) hcoreData)
  refine ⟨wellNamed_siblings, by decide +kernel, hnodup, ?_, ?_⟩
  · exact hdown.2 ⟨[0], [data.name], List.cons_ne_nil _ _, rfl, hinner⟩
  · refine Bool.eq_false_iff.2 fun h => ?_
    obtain ⟨r, names, -, hposition, -⟩ := hbeside.1 h
    exact absurd hposition (by simp)

end Podspec

end PodTarget
