import PodTarget.Proofs.FlagRoutes

/-! What becomes of a flag that takes the next word as its argument. Each word is kept
where it first comes up and nowhere else, so behind a flag stands the first word after
it that is new, and that is the argument of the first such flag at most. -/

namespace PodTarget

namespace Flags

/-- Of the words behind the first `flag`, `word` is the first that did not come up before. -/
def NextNew (flag word : String) (words : List String) : Prop :=
  ∃ front between back, words = front ++ flag :: (between ++ word :: back) ∧
    flag ∉ front ∧ word ∉ flag :: front ∧ ∀ w ∈ between, w ∈ flag :: front

theorem eraseDups_append_cons {front : List String} {flag : String} (h : flag ∉ front)
    (rest : List String) : (front ++ flag :: rest).eraseDups =
      front.eraseDups ++ flag :: (rest.filter (· ∉ flag :: front)).eraseDups := by
  rw [List.eraseDups_append, List.cons_removeAll, if_pos (by simpa using h), List.eraseDups_cons,
    List.removeAll, List.filter_filter]
  congr 4
  funext w
  by_cases hw : w = flag <;> simp [hw]

/-- In a list without repetition of the words, two of them follow each other exactly if
the second is the first new one behind the first. -/
theorem pair_infix_eraseDups_iff {flag word : String} {words : List String} :
    [flag, word] <:+: words.eraseDups ↔ NextNew flag word words := by
  constructor
  · rintro ⟨before, after, h⟩
    have hmem : flag ∈ words := by
      rw [← List.mem_eraseDups, ← h]
      simp
    obtain ⟨front, rest, rfl, hfront⟩ := List.eq_append_cons_of_mem hmem
    rw [eraseDups_append_cons hfront, List.append_assoc] at h
    -- the flag is there once, so what follows it is the same on both sides
    have hrest : (rest.filter (· ∉ flag :: front)).eraseDups = word :: after := by
      refine ((List.append_cons_inj_of_notMem ?_ ?_).1 h.symm).2.2
      · rwa [List.mem_eraseDups]
      · simp [List.mem_eraseDups]
    cases hnew : rest.filter (· ∉ flag :: front) with
    | nil =>
      rw [hnew, List.eraseDups_nil] at hrest
      nomatch hrest
    | cons next more =>
      rw [hnew, List.eraseDups_cons] at hrest
      obtain rfl := (List.cons.inj hrest).1
      obtain ⟨between, back, rfl, hbetween, hnext, -⟩ := List.filter_eq_cons_iff.1 hnew
      exact ⟨front, between, back, rfl, hfront, of_decide_eq_true hnext, fun w hw => by
        simpa only [decide_eq_true_eq, not_not] using hbetween w hw⟩
  · rintro ⟨front, between, back, rfl, hfront, hword, hbetween⟩
    have hnone : between.filter (· ∉ flag :: front) = [] := by
      rw [List.filter_eq_nil_iff]
      intro w hw
      simpa only [decide_eq_true_eq, not_not] using hbetween w hw
    rw [eraseDups_append_cons hfront, List.filter_append, hnone, List.nil_append,
      List.filter_cons_of_pos (by simpa using hword), List.eraseDups_cons]
    exact ⟨front.eraseDups, _, by simp; rfl⟩

/-- The words of all linker flags, in order and with those that come up again. -/
def linkWords (root : Declaration) (subspecs : List Declaration) : List String :=
  (((root.said subspecs .ios).filterMap (·.xcconfig["OTHER_LDFLAGS"]?)).flatMap wordsOf).filter
    (· ≠ inherited)

theorem linkOpts_eq_eraseDups (root : Declaration) (subspecs : List Declaration) :
    (collect root subspecs).linkOpts = (linkWords root subspecs).eraseDups := by
  rw [linkOpts_eq_wordsOnce, valuesOf_eq, wordsOnce, linkWords]

theorem mem_linkOpts {root : Declaration} {subspecs : List Declaration} {value word : String}
    (hv : value ∈ (root.said subspecs .ios).filterMap (·.xcconfig["OTHER_LDFLAGS"]?))
    (hw : word ∈ wordsOf value) (hne : word ≠ inherited) :
    word ∈ (collect root subspecs).linkOpts := by
  rw [linkOpts_eq_eraseDups, List.mem_eraseDups, linkWords, List.mem_filter]
  exact ⟨List.mem_flatMap.2 ⟨value, hv, hw⟩, decide_eq_true hne⟩

/-- A framework that is linked with is named among the linker flags, and so is the option
in front of it. It keeps the option exactly if it is the first new word behind the first
one of the kind. -/
theorem keeps_framework_iff (root : Declaration) (subspecs : List Declaration)
    {value name : String}
    (hvalue : value ∈ (root.said subspecs .ios).filterMap (·.xcconfig["OTHER_LDFLAGS"]?))
    (hpair : ["-framework", name] <:+: wordsOf value) (hname : name ≠ inherited) :
    let flags := (collect root subspecs).linkOpts
    "-framework" ∈ flags ∧ name ∈ flags ∧
      (["-framework", name] <:+: flags ↔ NextNew "-framework" name (linkWords root subspecs)) := by
  intro flags
  have hwords : ∀ word ∈ ["-framework", name], word ∈ wordsOf value :=
    fun word hw => hpair.subset hw
  refine ⟨mem_linkOpts hvalue (hwords _ (by simp)) (by decide),
    mem_linkOpts hvalue (hwords _ (by simp)) hname, ?_⟩
  rw [← pair_infix_eraseDups_iff, ← linkOpts_eq_eraseDups]

def linking (name flags : String) : Declaration :=
  { Declaration.named name with
    attributes := { Attributes.empty with xcconfig := .ofList [("OTHER_LDFLAGS", flags)] } }

theorem keeps_framework_kit :
    let root := linking "Foo" "-ObjC"
    let subspecs := [linking "Kit" "-framework -ObjC UIKit", linking "Maps" "-framework UIKit"]
    let flags := (collect root subspecs).linkOpts
    "-framework UIKit" ∈ (root.said subspecs .ios).filterMap (·.xcconfig["OTHER_LDFLAGS"]?) ∧
      ["-framework", "UIKit"] <:+: wordsOf "-framework UIKit" ∧ "UIKit" ≠ inherited ∧
      "-framework" ∈ flags ∧ "UIKit" ∈ flags ∧ ["-framework", "UIKit"] <:+: flags := by
  intro root subspecs flags
  have hvalue : "-framework UIKit" ∈
      (root.said subspecs .ios).filterMap (·.xcconfig["OTHER_LDFLAGS"]?) := by decide +kernel
  have hpair : ["-framework", "UIKit"] <:+: wordsOf "-framework UIKit" := by decide +kernel
  have hname : "UIKit" ≠ inherited := by decide
  obtain ⟨hflag, hword, hkept⟩ := keeps_framework_iff root subspecs hvalue hpair hname
  have hnew : NextNew "-framework" "UIKit" (linkWords root subspecs) :=
    ⟨["-ObjC"], ["-ObjC"], ["-framework", "UIKit"], by decide +kernel, by decide, by decide,
      by decide⟩
  exact ⟨hvalue, hpair, hname, hflag, hword, hkept.2 hnew⟩

/-- The second framework of a target is left without the option in front of it. -/
theorem second_framework_loses_option :
    let root := linking "Foo" "-framework UIKit"
    let subspecs := [linking "Maps" "-framework MapKit"]
    let flags := (collect root subspecs).linkOpts
    "-framework MapKit" ∈ (root.said subspecs .ios).filterMap (·.xcconfig["OTHER_LDFLAGS"]?) ∧
      ["-framework", "MapKit"] <:+: wordsOf "-framework MapKit" ∧ "MapKit" ≠ inherited ∧
      flags = ["-framework", "UIKit", "MapKit"] ∧ ¬["-framework", "MapKit"] <:+: flags := by
  decide +kernel

end Flags

end PodTarget
