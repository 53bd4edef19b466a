import PodTarget.Label
import PodTarget.Podspec.Subspecs
import PodTarget.Proofs.Splitting

/-! The names that lie in a pod itself, read in two ways: the path that a subspec
is chosen by takes the name of the pod and the separator away from the front, the
parts that a label is made of come from cutting the whole name. The two readings
differ where the separator already occurs in the pod's name, or in that name
together with a part of the separator. -/

namespace PodTarget

open Text

theorem Text.Separator.text_ofString (s : String) :
    (Separator.ofString s).text = if s = "" then ['/'] else s.toList := by
  unfold Separator.ofString
  by_cases h : s = ""
  · simp [h]
  · rw [dif_neg (by simpa using h), if_neg h]

theorem any_isEmpty_iff {parts : List (List Char)} : parts.any (·.isEmpty) ↔ [] ∈ parts := by
  rw [List.any_eq_true]
  constructor
  · rintro ⟨part, hm, he⟩
    exact List.isEmpty_iff.1 he ▸ hm
  · exact fun h => ⟨[], h, rfl⟩

theorem not_any_isEmpty_iff {parts : List (List Char)} :
    (!parts.any (·.isEmpty)) ↔ [] ∉ parts := by
  rw [← any_isEmpty_iff, Bool.not_eq_true', Bool.not_eq_true]

theorem localPath?_eq_some_iff {pod dependency path : String} {sep : Separator} :
    localPath? pod dependency sep = some path ↔
      ∃ t, dependency.toList = pod.toList ++ sep.text ++ t ∧ [] ∉ split sep.text t ∧
        path = .ofList (join ['/'] (split sep.text t)) := by
  simp only [localPath?, Option.bind_eq_bind, Option.bind_eq_some_iff, after?_eq_some_iff]
  constructor
  · rintro ⟨t, ⟨u, hu, rfl⟩, h⟩
    split at h
    · nomatch h
    · next hparts =>
      rw [any_isEmpty_iff] at hparts
      exact ⟨t, by rw [hu, List.append_assoc], hparts, (Option.some.inj h).symm⟩
  · rintro ⟨t, hd, hparts, rfl⟩
    rw [← any_isEmpty_iff] at hparts
    exact ⟨t, ⟨sep.text ++ t, by rw [hd, List.append_assoc], rfl⟩, if_neg hparts⟩

theorem localParts?_eq_some_iff {pod dependency : String} {sep : Separator}
    {parts : List (List Char)} : localParts? pod sep dependency = some parts ↔
      FirstAt sep.text (pod.toList ++ sep.text) pod.toList.length ∧
        ∃ t, dependency.toList = pod.toList ++ sep.text ++ t ∧ [] ∉ split sep.text t ∧
          parts = split sep.text t := by
  rw [localParts?]
  constructor
  · intro h
    split at h
    · next first rest hs =>
      split at h
      · next hc =>
        obtain ⟨rfl, hne, hparts⟩ := hc
        obtain rfl := Option.some.inj h
        obtain ⟨t, hd, rfl, hfirst⟩ := exists_of_split_eq_cons sep.ne_nil hs (by simpa using hne)
        rw [hd, firstAt_append_iff] at hfirst
        exact ⟨hfirst, t, hd, not_any_isEmpty_iff.1 hparts, rfl⟩
      · nomatch h
    · nomatch h
  · rintro ⟨hfirst, t, hd, hparts, rfl⟩
    rw [hd, split_append sep.ne_nil t ((firstAt_append_iff t).2 hfirst)]
    exact if_pos ⟨rfl, by simp [split_ne_nil], not_any_isEmpty_iff.2 hparts⟩

/-- There is a name for a part, whatever the separator. -/
theorem exists_split_eq_singleton (sep : Separator) :
    ∃ t, t ≠ [] ∧ split sep.text t = [t] := by
  obtain ⟨c, rest, hs⟩ := List.exists_cons_of_ne_nil sep.ne_nil
  obtain ⟨d, hd⟩ : ∃ d : Char, d ≠ c := by
    by_cases h : 'x' = c
    · exact ⟨'y', fun hy => absurd (h.trans hy.symm) (by decide)⟩
    · exact ⟨'x', h⟩
  refine ⟨[d], by simp, split_of_not_occurs fun h => ?_⟩
  have hc : c ∈ [d] := h.subset (hs ▸ List.mem_cons_self)
  exact hd (List.mem_singleton.1 hc).symm

/-- The two readings of the names in a pod agree on every name exactly if the
separator after the pod's name is the first one there. -/
theorem localPath?_eq_localParts?_iff (pod sep : String) :
    (∀ dependency, localPath? pod dependency (.ofString sep) =
        (localParts? pod (.ofString sep) dependency).map fun parts => .ofList (join ['/'] parts)) ↔
      let s := if sep = "" then ['/'] else sep.toList
      FirstAt s (pod.toList ++ s) pod.toList.length := by
  rw [← Separator.text_ofString]
  generalize Separator.ofString sep = sep
  constructor
  · intro h
    obtain ⟨t, hne, ht⟩ := exists_split_eq_singleton sep
    have hpath : localPath? pod (.ofList (pod.toList ++ sep.text ++ t)) sep =
        some (.ofList (join ['/'] (split sep.text t))) := by
      refine localPath?_eq_some_iff.2 ⟨t, by simp, ?_, rfl⟩
      rw [ht]
      exact fun hm => hne (List.mem_singleton.1 hm).symm
    rw [h, Option.map_eq_some_iff] at hpath
    obtain ⟨parts, hparts, -⟩ := hpath
    exact (localParts?_eq_some_iff.1 hparts).1
  · intro hfirst dependency
    refine Option.ext fun path => ?_
    rw [localPath?_eq_some_iff, Option.map_eq_some_iff]
    constructor
    · rintro ⟨t, hd, hparts, rfl⟩
      exact ⟨_, localParts?_eq_some_iff.2 ⟨hfirst, t, hd, hparts, rfl⟩, rfl⟩
    · rintro ⟨parts, hparts, rfl⟩
      obtain ⟨-, t, hd, hne, rfl⟩ := localParts?_eq_some_iff.1 hparts
      exact ⟨t, hd, hne, rfl⟩

end PodTarget
