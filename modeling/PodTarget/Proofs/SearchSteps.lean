import Mathlib.Logic.Function.Iterate
import PodTarget.Proofs.Selection

/-! The search step by step, with nothing that stops it. Only the paths there are and
the texts in front of their slashes bring anything in, so after some number of steps
nothing is queued, however often a path comes back. A path that is followed is chosen
from then on, so it is not followed again. -/

namespace PodTarget

namespace Search

variable {next : String → List String} {roots : List String}

def after (next : String → List String) (roots : List String) (n : Nat) : Search :=
  (step next)^[n] ⟨roots, []⟩

def Follows (s : Search) (p : String) : Prop :=
  ∃ rest, s.queue = p :: rest ∧ p ∉ s.chosen

theorem after_succ (next : String → List String) (roots : List String) (n : Nat) :
    after next roots (n + 1) = (after next roots n).step next :=
  Function.iterate_succ_apply' ..

theorem run_eq_iterate (next : String → List String) (n : Nat) (s : Search) :
    run next n s = (step next)^[n] s := by
  induction n generalizing s with
  | zero => rfl
  | succ n ih =>
    rw [run, Function.iterate_succ_apply]
    split
    case isTrue h =>
      -- where nothing is queued, each step leaves all as it is
      have hs : s.step next = s := by
        rcases step_cases next s with ⟨-, hs⟩ | ⟨p, rest, hq, -⟩ | ⟨p, rest, hq, -⟩
        · exact hs
        · simp [hq] at h
        · simp [hq] at h
      rw [hs, Function.iterate_fixed hs]
    case isFalse => exact ih _

theorem inv_after (next : String → List String) (roots : List String) (n : Nat) :
    Inv next roots (after next roots n) := by
  rw [after, ← run_eq_iterate]
  exact inv_run n (inv_start next roots)

theorem follows_iff {s : Search} {p q : String} {rest : List String} (hq : s.queue = q :: rest) :
    s.Follows p ↔ p = q ∧ q ∉ s.chosen := by
  constructor
  · rintro ⟨rest', hr, hp⟩
    obtain ⟨rfl, -⟩ := List.cons.inj (hq.symm.trans hr)
    exact ⟨rfl, hp⟩
  · rintro ⟨rfl, hp⟩
    exact ⟨rest, hq, hp⟩

theorem mem_chosen_step {s : Search} {p : String} :
    p ∈ (s.step next).chosen ↔ p ∈ s.chosen ∨ s.Follows p := by
  rcases step_cases next s with ⟨hq, hs⟩ | ⟨q, rest, hq, hc, hs⟩ | ⟨q, rest, hq, hc, hs⟩
  · have hnone : ¬s.Follows p := by
      rintro ⟨rest, hr, -⟩
      simp [hq] at hr
    rw [hs, or_iff_left hnone]
  · have hnone : ¬s.Follows p := fun h => ((follows_iff hq).1 h).2 hc
    rw [hs, or_iff_left hnone]
  · rw [hs, follows_iff hq, and_iff_left hc, List.mem_cons, or_comm]

theorem mem_chosen_after_of_le {i j : Nat} (h : i ≤ j) {p : String}
    (hp : p ∈ (after next roots i).chosen) : p ∈ (after next roots j).chosen := by
  induction h with
  | refl => exact hp
  | step _ ih =>
    rw [Nat.succ_eq_add_one, after_succ]
    exact mem_chosen_step.2 (Or.inl ih)

/-- A path is not followed in a later step again. -/
theorem not_follows_after {i j : Nat} (h : i < j) {p : String}
    (hp : (after next roots i).Follows p) : ¬(after next roots j).Follows p := by
  rintro ⟨-, -, hnot⟩
  refine hnot (mem_chosen_after_of_le (Nat.succ_le_of_lt h) ?_)
  rw [Nat.succ_eq_add_one, after_succ]
  exact mem_chosen_step.2 (Or.inr hp)

theorem follows_once {i j : Nat} {p : String} (hi : (after next roots i).Follows p)
    (hj : (after next roots j).Follows p) : i = j := by
  rcases Nat.lt_trichotomy i j with h | h | h
  · exact absurd hj (not_follows_after h hi)
  · exact h
  · exact absurd hi (not_follows_after h hj)

end Search

theorem Reached.mono {next next' : String → List String} {roots : List String} {p : String}
    (h : ∀ p, ∀ q ∈ next p, q ∈ next' p) (hp : Reached next roots p) : Reached next' roots p := by
  induction hp with
  | root hr => exact .root hr
  | step _ hq ih => exact .step ih (h _ _ hq)

namespace Podspec

section

variable {s : Podspec} {requested : List String} {sep : Text.Separator}
  {next : String → List String}
  (hnext : ∀ p q, q ∈ next p ↔ q ∈ broughtIn s.name sep s.flatten p)

include hnext

/-- The bound is enough for the search without an end. -/
theorem queue_after_searchBound (roots : List String) :
    (Search.after next roots (searchBound next roots s.paths)).queue = [] := by
  rw [Search.after, ← Search.run_eq_iterate]
  refine queue_run_searchBound (fun p hp => ?_) roots
  obtain ⟨q, hq⟩ := List.exists_mem_of_ne_nil _ hp
  exact mem_places_of_broughtIn (List.ne_nil_of_mem ((hnext p q).1 hq))

/-- Once nothing is queued, the paths chosen are those of the subspecs that are selected. -/
theorem select_eq_of_queue_after {n : Nat}
    (hq : (Search.after next ((s.rootNames requested).map (pathOf s.name sep)) n).queue = []) :
    s.select requested sep = (s.flatten.filter fun e =>
      e.1 ∈ (Search.after next ((s.rootNames requested).map (pathOf s.name sep)) n).chosen).map
        (·.2) := by
  rw [select_eq_filter]
  refine congrArg (List.map _) (List.filter_congr fun e _ => decide_eq_decide.2 ?_)
  rw [mem_chosenPaths_broughtIn, (Search.inv_after ..).mem_chosen hq]
  exact ⟨.mono fun p q => (hnext p q).2, .mono fun p q => (hnext p q).1⟩

end

/-- The search for the subspecs to build ends on every pod, in whatever order and however
often what a path brings in is queued. No path is followed twice, and each one chosen is
that of a root name, of a subspec, or of a dependency of a subspec. -/
theorem select_search_ends (s : Podspec) (requested : List String) (sep : String)
    {next : String → List String}
    (hnext : ∀ p q, q ∈ next p ↔ q ∈ broughtIn s.name (.ofString sep) s.flatten p) :
    let roots := (s.rootNames requested).map (pathOf s.name (.ofString sep))
    let state := Search.after next roots
    (∃ n ≤ searchBound next roots s.paths, (state n).queue = [] ∧
        s.select requested (.ofString sep) =
          (s.flatten.filter fun e => e.1 ∈ (state n).chosen).map (·.2)) ∧
      (∀ p i j, (state i).Follows p → (state j).Follows p → i = j) ∧
      ∀ n, ∀ p ∈ (state n).chosen,
        (∃ name, s.IsRootName requested name ∧ pathOf s.name (.ofString sep) name = p) ∨
          p ∈ s.paths ∨ ∃ e ∈ s.subtrees, ∃ name, e.2.declaration.DependsOn name ∧
            localPath? s.name name (.ofString sep) = some p := by
  intro roots state
  have hend : (state (searchBound next roots s.paths)).queue = [] :=
    queue_after_searchBound hnext roots
  refine ⟨⟨_, Nat.le_refl _, hend, select_eq_of_queue_after hnext hend⟩,
    fun p i j => Search.follows_once, fun n p hp => ?_⟩
  cases (Search.inv_after next roots n).reached p (Or.inr hp) with
  | root hr =>
    obtain ⟨name, hname, hpath⟩ := List.mem_map.1 hr
    exact Or.inl ⟨name, mem_rootNames.1 hname, hpath⟩
  | @step q _ _ hq =>
    right
    rcases mem_broughtIn.1 ((hnext q p).1 hq) with ⟨hp, -⟩ | ⟨⟨q, d⟩, he, name, hname, hpath⟩
    · exact Or.inl hp
    · obtain ⟨t, ht, rfl⟩ := mem_flatten_iff.1 (List.mem_of_find?_eq_some he)
      exact Or.inr ⟨_, ht, name, Declaration.mem_dependencyNames.1 hname, hpath⟩

def depending (name : String) (names : List String) (subspecs : List Podspec) : Podspec :=
  ⟨{ Declaration.named name with attributes := { Attributes.empty with dependencies := names } },
    subspecs⟩

/-- Two subspecs of one name, of which the first depends on itself, on one that is not
there, and on one that depends on it. -/
def tangled : Podspec :=
  ⟨.named "Foo", [
    depending "Core" ["Foo/Core", "Foo/Nope", "Foo/UI"] [depending "Extras" ["Foo/UI"] []],
    depending "Core" [] [],
    depending "UI" ["Foo/Core/Extras"] [],
    depending "Net" [] []]⟩

theorem select_search_ends_tangled :
    let brings := broughtIn tangled.name (.ofString "/") tangled.flatten
    let state := Search.after (fun p => brings p ++ brings p) ["Core"]
    (∀ p q, q ∈ brings p ++ brings p ↔ q ∈ brings p) ∧
      (∃ n, (state n).queue = [] ∧
        (tangled.flatten.filter fun e => e.1 ∈ (state n).chosen).map (·.2.name) =
          ["Core", "Extras", "Core", "UI"]) ∧
      ∀ p i j, (state i).Follows p → (state j).Follows p → i = j := by
  intro brings state
  have hnext (p q : String) : q ∈ brings p ++ brings p ↔ q ∈ brings p := by
    rw [List.mem_append, or_self]
  have hroots : (tangled.rootNames ["Foo/Core"]).map (pathOf tangled.name (.ofString "/")) =
      ["Core"] := by decide +kernel
  have hselect : (tangled.select ["Foo/Core"] (.ofString "/")).map (·.name) =
      ["Core", "Extras", "Core", "UI"] := by decide +kernel
  obtain ⟨⟨n, -, hq, hs⟩, honce, -⟩ := select_search_ends tangled ["Foo/Core"] "/" hnext
  rw [hroots] at hq hs honce
  rw [hs, List.map_map] at hselect
  exact ⟨hnext, ⟨n, hq, hselect⟩, honce⟩

end Podspec

end PodTarget
