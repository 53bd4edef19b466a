import PodTarget.Proofs.Selection

/-! What the subspecs chosen depend on in their own pod. It is chosen with them,
together with all that is nested there, so that a label of the pod itself may be
left out of the target. What the pod as a whole depends on is not followed: the
search starts from its subspecs. -/

namespace PodTarget

open Text

theorem join_ne_nil (sep : List Char) {parts : List (List Char)} (hne : parts ≠ [])
    (hp : [] ∉ parts) : join sep parts ≠ [] := by
  cases parts with
  | nil => exact absurd rfl hne
  | cons a rest =>
    have ha : a ≠ [] := fun h => hp (h ▸ List.mem_cons_self)
    cases rest with
    | nil => simpa [join] using ha
    | cons b rest => simp [join, List.intercalate_cons_cons, ha]

/-- A dependency never names the empty path. -/
theorem localPath?_ne_empty {pod name q : String} {sep : Separator}
    (h : localPath? pod name sep = some q) : q ≠ "" := by
  simp only [localPath?, Option.bind_eq_bind, Option.bind_eq_some_iff] at h
  obtain ⟨rest, -, h⟩ := h
  split at h
  · simp at h
  · rename_i hparts
    have hp : [] ∉ split sep.text rest := fun hm => hparts (List.any_eq_true.2 ⟨[], hm, rfl⟩)
    rw [← Option.some.inj h]
    simpa using join_ne_nil ['/'] (split_ne_nil sep.text rest) hp

namespace Podspec

theorem Chosen.of_nested {s : Podspec} {requested : List String} {sep : Separator} {q : String}
    {t : Podspec} (h : s.Chosen requested sep q) (hq : q ≠ "") (ht : (q, t) ∈ s.subtrees)
    {e : String × Podspec} (he : e ∈ t.nested q) : s.Chosen requested sep e.1 :=
  .nested h (mem_paths (mem_subtrees_of_nested ht he)) (below_of_nested hq he)

/-- Nothing narrows the choice down, and the name of each direct subspec is read
as its path and not empty. -/
def ChoosesAll (s : Podspec) (requested : List String) (sep : Separator) : Prop :=
  requested = [] ∧ s.declaration.defaultSubspecs = [] ∧
    ∀ t ∈ s.subspecs, t.name ≠ "" ∧ localPath? s.name t.name sep = none

theorem chosen_of_choosesAll {s : Podspec} {requested : List String} {sep : Separator}
    (h : s.ChoosesAll requested sep) {e : String × Podspec} (he : e ∈ s.subtrees) :
    s.Chosen requested sep e.1 := by
  obtain ⟨hr, hdef, hnames⟩ := h
  obtain ⟨t, ht, htop, hte⟩ := exists_direct he
  obtain ⟨hne, hlocal⟩ := hnames t ht
  have hname : s.IsRootName requested t.name := Or.inr ⟨hr, Or.inr ⟨hdef, t, ht, rfl⟩⟩
  have hroot : s.Chosen requested sep t.name := by
    have := @Chosen.root s requested sep _ hname
    rwa [pathOf, hlocal] at this
  rcases hte with rfl | hte
  · exact hroot
  · exact hroot.of_nested hne htop hte

/-- A subspec that a selected one depends on is selected with all that is nested
in it, and so is one that the pod itself depends on if nothing is left out. -/
theorem select_follows_dependencies (s : Podspec) (hd : s.paths.Nodup) (requested : List String)
    (sep : String) :
    ∃ kept : List (String × Podspec), kept.Sublist s.subtrees ∧
      s.select requested (.ofString sep) = kept.map (·.2.declaration) ∧
      ∀ d, (d ∈ s.select requested (.ofString sep) ∨
          d = s.declaration ∧ s.ChoosesAll requested (.ofString sep)) →
        ∀ n q t, d.DependsOn n → localPath? s.name n (.ofString sep) = some q →
          (q, t) ∈ s.subtrees → (q, t) ∈ kept ∧ ∀ e ∈ t.nested q, e ∈ kept := by
  obtain ⟨kept, hsub, hmem, hsel⟩ := s.exists_select_eq_map requested (.ofString sep)
  simp only [reached_iff_chosen hd] at hmem
  refine ⟨kept, hsub, hsel, ?_⟩
  intro d hdecl n q t hn hq ht
  have hchosen : s.Chosen requested (.ofString sep) q := by
    rcases hdecl with hdecl | ⟨-, hall⟩
    · rw [hsel, List.mem_map] at hdecl
      obtain ⟨⟨p, u⟩, hu, rfl⟩ := hdecl
      obtain ⟨hu, hp⟩ := (hmem _).1 hu
      exact .dependency hp hu hn hq
    · exact chosen_of_choosesAll hall ht
  refine ⟨(hmem _).2 ⟨ht, hchosen⟩, fun e he => (hmem e).2 ⟨mem_subtrees_of_nested ht he, ?_⟩⟩
  exact hchosen.of_nested (localPath?_ne_empty hq) ht he

theorem select_follows_dependencies_cyclic :
    cyclic.paths.Nodup ∧ screen ∈ cyclic.select [] (.ofString "::") ∧
    screen.DependsOn "Foo::Net" ∧
    localPath? cyclic.name "Foo::Net" (.ofString "::") = some "Net" ∧
    ("Net", net) ∈ cyclic.subtrees ∧
    ∃ kept : List (String × Podspec), kept.Sublist cyclic.subtrees ∧
      cyclic.select [] (.ofString "::") = kept.map (·.2.declaration) ∧
      ("Net", net) ∈ kept ∧ ∀ e ∈ net.nested "Net", e ∈ kept := by
  have hd : cyclic.paths.Nodup := by decide +kernel
  have hscreen : screen ∈ cyclic.select [] (.ofString "::") := by decide +kernel
  have hdep : screen.DependsOn "Foo::Net" := Or.inr ⟨.osx, _, rfl, by decide⟩
  have hpath : localPath? cyclic.name "Foo::Net" (.ofString "::") = some "Net" := by decide +kernel
  have hnet : ("Net", net) ∈ cyclic.subtrees :=
    mem_subtreesAll_iff.2 ⟨net, by simp [cyclic], Or.inl rfl⟩
  obtain ⟨kept, hsub, hsel, hkept⟩ := select_follows_dependencies cyclic hd [] "::"
  exact ⟨hd, hscreen, hdep, hpath, hnet, kept, hsub, hsel,
    hkept screen (Or.inl hscreen) _ _ _ hdep hpath hnet⟩

def leaning : Podspec :=
  ⟨{ Declaration.named "Foo" with
      defaultSubspecs := ["UI"]
      attributes := { Attributes.empty with dependencies := ["Foo/Core"] } },
    [⟨.named "Core", []⟩, ⟨.named "UI", []⟩]⟩

/-- The search starts from the subspecs, so what the pod itself depends on may
be left out. -/
theorem leaning_select_omits_core : leaning.paths.Nodup ∧ leaning.declaration.DependsOn "Foo/Core" ∧
    localPath? leaning.name "Foo/Core" (.ofString "/") = some "Core" ∧ "Core" ∈ leaning.paths ∧
    Declaration.named "Core" ∉ leaning.select [] (.ofString "/") := by
  refine ⟨?_, Or.inl ?_, ?_, ?_, ?_⟩ <;> decide +kernel

end Podspec

end PodTarget
