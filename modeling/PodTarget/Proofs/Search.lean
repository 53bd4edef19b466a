import PodTarget.Podspec.Subspecs

/-! The search through the paths of a pod. It ends within its bound, whatever
brings in what, and the paths chosen by then are the roots with all that they
bring in. Every step keeps what is still queued and what is chosen together
closed, so nothing is lost when a path comes up a second time and is passed over. -/

namespace PodTarget

/-- The least set with the roots and with whatever one of its members brings in. -/
inductive Reached (next : String → List String) (roots : List String) : String → Prop
  | root {p : String} (h : p ∈ roots) : Reached next roots p
  | step {p q : String} (h : Reached next roots p) (hq : q ∈ next p) : Reached next roots q

namespace Search

variable {next : String → List String} {roots : List String}

theorem step_cases (next : String → List String) (s : Search) :
    (s.queue = [] ∧ s.step next = s) ∨
    (∃ p rest, s.queue = p :: rest ∧ p ∈ s.chosen ∧ s.step next = ⟨rest, s.chosen⟩) ∨
    (∃ p rest, s.queue = p :: rest ∧ p ∉ s.chosen ∧
      s.step next = ⟨rest ++ next p, p :: s.chosen⟩) := by
  obtain ⟨queue, chosen⟩ := s
  cases queue with
  | nil => exact Or.inl ⟨rfl, rfl⟩
  | cons p rest =>
    by_cases h : p ∈ chosen
    · exact Or.inr (Or.inl ⟨p, rest, rfl, h, by simp [step, h]⟩)
    · exact Or.inr (Or.inr ⟨p, rest, rfl, h, by simp [step, h]⟩)

structure Inv (next : String → List String) (roots : List String) (s : Search) : Prop where
  start : ∀ p ∈ roots, p ∈ s.queue ∨ p ∈ s.chosen
  closed : ∀ p ∈ s.chosen, ∀ q ∈ next p, q ∈ s.queue ∨ q ∈ s.chosen
  reached : ∀ p, p ∈ s.queue ∨ p ∈ s.chosen → Reached next roots p
  nodup : s.chosen.Nodup

theorem inv_start (next : String → List String) (roots : List String) :
    Inv next roots ⟨roots, []⟩ where
  start _ hp := Or.inl hp
  closed p hp := by simp at hp
  reached p hp := by
    rcases hp with hp | hp
    · exact .root hp
    · simp at hp
  nodup := List.nodup_nil

theorem inv_step {s : Search} (h : Inv next roots s) : Inv next roots (s.step next) := by
  rcases step_cases next s with ⟨-, hs⟩ | ⟨p, rest, hq, hp, hs⟩ | ⟨p, rest, hq, hp, hs⟩
  · rw [hs]; exact h
  · -- the path is passed over, and it is still among the chosen
    have still : ∀ q, q ∈ s.queue ∨ q ∈ s.chosen → q ∈ rest ∨ q ∈ s.chosen := by
      intro q hmem
      rw [hq, List.mem_cons] at hmem
      rcases hmem with (rfl | hr) | hc
      · exact Or.inr hp
      · exact Or.inl hr
      · exact Or.inr hc
    rw [hs]
    refine ⟨fun r hr => still r (h.start r hr), fun r hr q hqn => still q (h.closed r hr q hqn),
      fun q hmem => h.reached q ?_, h.nodup⟩
    rw [hq]
    exact hmem.imp_left (List.mem_cons_of_mem p)
  · have still : ∀ q, q ∈ s.queue ∨ q ∈ s.chosen → q ∈ rest ++ next p ∨ q ∈ p :: s.chosen := by
      intro q hmem
      rw [hq, List.mem_cons] at hmem
      rcases hmem with (rfl | hr) | hc
      · exact Or.inr List.mem_cons_self
      · exact Or.inl (List.mem_append_left _ hr)
      · exact Or.inr (List.mem_cons_of_mem _ hc)
    have hreach : Reached next roots p := h.reached p (Or.inl (by rw [hq]; exact List.mem_cons_self))
    rw [hs]
    refine ⟨fun r hr => still r (h.start r hr), ?_, ?_, List.nodup_cons.2 ⟨hp, h.nodup⟩⟩
    · intro r hr q hqn
      rcases List.mem_cons.1 hr with rfl | hr
      · exact Or.inl (List.mem_append_right _ hqn)
      · exact still q (h.closed r hr q hqn)
    · intro q hmem
      rcases hmem with hmem | hmem
      · rcases List.mem_append.1 hmem with hr | hn
        · exact h.reached q (Or.inl (by rw [hq]; exact List.mem_cons_of_mem _ hr))
        · exact .step hreach hn
      · rcases List.mem_cons.1 hmem with rfl | hc
        · exact hreach
        · exact h.reached q (Or.inr hc)

theorem inv_run (n : Nat) {s : Search} (h : Inv next roots s) : Inv next roots (run next n s) := by
  induction n generalizing s with
  | zero => exact h
  | succ n ih =>
    rw [run]
    split
    · exact h
    · exact ih (inv_step h)

/-- The number of paths that the paths of `places` not chosen yet would bring in. -/
def unspent (next : String → List String) (places chosen : List String) : Nat :=
  ((places.filter (· ∉ chosen)).flatMap next).length

theorem unspent_nil (next : String → List String) (places : List String) :
    unspent next places [] = (places.flatMap next).length := by
  rw [unspent, List.filter_eq_self.2 (by simp)]

theorem unspent_cons (next : String → List String) (x : String) (places chosen : List String) :
    unspent next (x :: places) chosen =
      (if x ∈ chosen then 0 else (next x).length) + unspent next places chosen := by
  by_cases hx : x ∈ chosen <;> simp [unspent, hx]

theorem unspent_chosen_cons_le (next : String → List String) (places chosen : List String)
    (p : String) : unspent next places (p :: chosen) ≤ unspent next places chosen := by
  induction places with
  | nil => exact Nat.le_refl _
  | cons x places ih =>
    have hx : (if x ∈ p :: chosen then 0 else (next x).length) ≤
        if x ∈ chosen then 0 else (next x).length := by
      by_cases hx : x ∈ chosen <;> by_cases hp : x = p <;> simp [hx, hp]
    rw [unspent_cons, unspent_cons]
    omega

/-- A path that brings something in is paid for when it is chosen. -/
theorem length_add_unspent_le {places chosen : List String} {p : String} (hc : p ∉ chosen)
    (hp : next p ≠ [] → p ∈ places) :
    (next p).length + unspent next places (p :: chosen) ≤ unspent next places chosen := by
  by_cases hn : next p = []
  · simpa [hn] using unspent_chosen_cons_le next places chosen p
  · have hmem := hp hn
    clear hp
    induction places with
    | nil => simp at hmem
    | cons x places ih =>
      rw [unspent_cons, unspent_cons]
      by_cases hx : x = p
      · have hle := unspent_chosen_cons_le next places chosen p
        subst hx
        simp only [List.mem_cons_self, if_true, hc, if_false]
        omega
      · have ih := ih ((List.mem_cons.1 hmem).resolve_left (Ne.symm hx))
        have he : x ∈ p :: chosen ↔ x ∈ chosen := by simp [hx]
        simp only [he]
        omega

theorem step_lt {places : List String} (hp : ∀ p, next p ≠ [] → p ∈ places) {s : Search}
    (hs : s.queue ≠ []) :
    (s.step next).queue.length + unspent next places (s.step next).chosen <
      s.queue.length + unspent next places s.chosen := by
  rcases step_cases next s with ⟨hq, -⟩ | ⟨p, rest, hq, -, he⟩ | ⟨p, rest, hq, hc, he⟩
  · exact absurd hq hs
  · rw [he, hq]
    simp
  · have := length_add_unspent_le hc (hp p)
    rw [he, hq]
    simp only [List.length_append, List.length_cons]
    omega

theorem queue_run {places : List String} (hp : ∀ p, next p ≠ [] → p ∈ places) (n : Nat)
    (s : Search) (h : s.queue.length + unspent next places s.chosen ≤ n) :
    (run next n s).queue = [] := by
  induction n generalizing s with
  | zero =>
    rw [run]
    exact List.length_eq_zero_iff.1 (by omega)
  | succ n ih =>
    rw [run]
    split
    case isTrue he => exact List.isEmpty_iff.1 he
    case isFalse he =>
      have := step_lt hp (s := s) (by simpa using he)
      exact ih _ (by omega)

/-- A search whose queue is empty has chosen exactly the paths reached. -/
theorem Inv.mem_chosen {s : Search} (h : Inv next roots s) (hq : s.queue = []) {p : String} :
    p ∈ s.chosen ↔ Reached next roots p := by
  constructor
  · exact fun hp => h.reached p (Or.inr hp)
  · intro hp
    induction hp with
    | root hr => simpa [hq] using h.start _ hr
    | step _ hn ih => simpa [hq] using h.closed _ ih _ hn

end Search

/-- The bound is enough where only the paths listed and the texts in front of
their slashes bring anything in. -/
theorem queue_run_searchBound {next : String → List String} {paths : List String}
    (hp : ∀ p, next p ≠ [] → p ∈ paths.flatMap fun q => q :: parents q) (roots : List String) :
    (Search.run next (searchBound next roots paths) ⟨roots, []⟩).queue = [] := by
  apply Search.queue_run hp
  exact Nat.le_of_eq (congrArg (roots.length + ·) (Search.unspent_nil next _))

theorem mem_chosenPaths {next : String → List String} {paths : List String}
    (hp : ∀ p, next p ≠ [] → p ∈ paths.flatMap fun q => q :: parents q) {roots : List String}
    {p : String} : p ∈ chosenPaths next roots paths ↔ Reached next roots p :=
  (Search.inv_run _ (Search.inv_start next roots)).mem_chosen (queue_run_searchBound hp roots)

end PodTarget
