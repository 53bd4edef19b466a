import Mathlib.Data.List.Basic
import Mathlib.Data.List.Induction
import PodTarget.Proofs.FlagWords
import PodTarget.Proofs.MergeLaws

/-! Where every flag and every build setting ends up. What a pod and its subspecs
say is gathered in their order, of each first what holds for all platforms and then
its section; a list of flags has the words in that order, each where it first comes
up, and a setting that is not a list of flags keeps all its values. -/

namespace PodTarget

namespace Declaration

/-- What a pod and its subspecs say for a platform, in the order in which it is gathered. -/
def said (root : Declaration) (subspecs : List Declaration) (p : Platform) : List Attributes :=
  (root :: subspecs).flatMap fun d => d.attributes :: (d.sections.get p).toList

theorem exists_mem_said_iff (root : Declaration) (subspecs : List Declaration) (p : Platform)
    {P : Attributes → Prop} : (∃ a ∈ root.said subspecs p, P a) ↔ ∃ d ∈ root :: subspecs,
      P d.attributes ∨ ∃ s, d.sections.get p = some s ∧ P s := by
  simp only [said, List.mem_flatMap, List.mem_cons, Option.mem_toList]
  constructor
  · rintro ⟨a, ⟨d, hd, rfl | hs⟩, ha⟩
    · exact ⟨d, hd, Or.inl ha⟩
    · exact ⟨d, hd, Or.inr ⟨a, hs, ha⟩⟩
  · rintro ⟨d, hd, ha | ⟨s, hs, ha⟩⟩
    · exact ⟨_, ⟨d, hd, Or.inl rfl⟩, ha⟩
    · exact ⟨s, ⟨d, hd, Or.inr hs⟩, ha⟩

section View

-- a list that is read off a value, such as the value itself or what it has at a key, and
-- to which merging adds at the end
variable {α β : Type} [Merge α] (view : α → List β)
  (hview : ∀ a b, view (merge a b) = view a ++ view b)

include hview

theorem view_foldl_merge (l : List α) (a : α) :
    view (l.foldl merge a) = view a ++ l.flatMap view := by
  induction l generalizing a with
  | nil => simp
  | cons b l ih => rw [List.foldl_cons, ih, hview, List.flatMap_cons, List.append_assoc]

theorem view_effective (d : Declaration) (f : Attributes → α) (p : Platform) :
    view (d.effective f p) =
      (d.attributes :: (d.sections.get p).toList).flatMap fun a => view (f a) := by
  rw [effective]
  cases d.sections.get p with
  | none => simp
  | some s => simp [hview]

/-- What is gathered is what is said, one after the other. -/
theorem view_get_collect (root : Declaration) (subspecs : List Declaration) (f : Attributes → α)
    (p : Platform) : view ((root.collect subspecs f).get p) =
      (root.said subspecs p).flatMap fun a => view (f a) := by
  rw [get_collect, view_foldl_merge view hview, said, List.flatMap_assoc, List.flatMap_cons,
    List.flatMap_map]
  simp only [view_effective view hview]

end View

end Declaration

namespace Flags

/-- The words of some texts in their order, each once, but for the one that stands
for flags that are there anyway. -/
def wordsOnce (texts : List String) : List String :=
  ((texts.flatMap wordsOf).filter (· ≠ inherited)).eraseDups

theorem eq_or_mem_wordsOnce {texts : List String} {word : String}
    (h : word ∈ texts.flatMap wordsOf) : word = inherited ∨ word ∈ wordsOnce texts := by
  by_cases hw : word = inherited
  · exact Or.inl hw
  · right
    rw [wordsOnce, List.mem_eraseDups, List.mem_filter]
    exact ⟨h, decide_eq_true hw⟩

theorem addWord_eraseDups (l : List String) (w : String) :
    addWord l.eraseDups w = if w = inherited then l.eraseDups else (l ++ [w]).eraseDups := by
  by_cases hw : w = inherited
  · rw [addWord, if_pos (Or.inl hw), if_pos hw]
  · rw [if_neg hw, List.eraseDups_append]
    by_cases hl : w ∈ l <;> simp [addWord, hw, hl, List.removeAll, List.eraseDups_cons]

theorem foldl_addWord_nil (words : List String) :
    words.foldl addWord [] = (words.filter (· ≠ inherited)).eraseDups := by
  induction words using List.reverseRecOn with
  | nil => rfl
  | append_singleton words w ih =>
    rw [List.foldl_append, ih, List.foldl_cons, List.foldl_nil, addWord_eraseDups,
      List.filter_append]
    by_cases hw : w = inherited <;> simp [hw]

/-- The words that are found where a build setting goes. -/
def wordsAt (f : Flags) (key : String) : List String :=
  if key = "OTHER_CFLAGS" then f.objcOpts
  else if key = "OTHER_SWIFT_FLAGS" then f.swiftOpts
  else if key = "OTHER_LDFLAGS" then f.linkOpts
  else wordsOf (f.xcconfig[key]?.getD "")

section Collect

variable (root : Declaration) (subspecs : List Declaration)

theorem compilerWords_eq : compilerWords root subspecs =
    ((root.said subspecs .ios).flatMap (·.compilerFlags)).flatMap wordsOf := by
  rw [compilerWords]
  exact congrArg (·.flatMap wordsOf)
    (Declaration.view_get_collect id (fun _ _ => rfl) root subspecs (·.compilerFlags) .ios)

theorem valuesOf_eq (key : String) : valuesOf root subspecs key =
    (root.said subspecs .ios).filterMap (·.xcconfig[key]?) := by
  have one (a : Attributes) : (settings a)[key]?.getD [] = a.xcconfig[key]?.toList := by
    rw [settings, Std.ExtTreeMap.getElem?_map]
    cases a.xcconfig[key]? <;> rfl
  rw [valuesOf, PlatformValue.primary, Platform.primary,
    Declaration.view_get_collect (fun m => m[key]?.getD []) fun a b => getD_merge a b key]
  simp only [one, List.filterMap_eq_flatMap_toList]

/-- A setting is there if there is a value for it. -/
theorem getElem?_settings (key : String) : (root.collect subspecs settings).primary[key]? =
    if valuesOf root subspecs key = [] then none else some (valuesOf root subspecs key) := by
  have hsome : (root.collect subspecs settings).primary[key]?.isSome ↔
      valuesOf root subspecs key ≠ [] := by
    rw [PlatformValue.primary, Declaration.holds_collect (P := (·[key]?.isSome))
      (fun a b => isSome_getElem?_merge a b key),
      ← Declaration.exists_mem_said_iff root subspecs .primary
        (P := fun a => (settings a)[key]?.isSome), valuesOf_eq, Ne, List.filterMap_eq_nil_iff]
    simp [settings, Std.ExtTreeMap.getElem?_map, Platform.primary]
  cases h : (root.collect subspecs settings).primary[key]? with
  | none =>
    rw [h] at hsome
    rw [if_pos (by simpa using hsome)]
  | some values =>
    have hvalues : valuesOf root subspecs key = values := by rw [valuesOf, h, Option.getD_some]
    rw [h] at hsome
    rw [if_neg (hsome.1 rfl), hvalues]

theorem objcOpts_eq_wordsOnce : (collect root subspecs).objcOpts =
    wordsOnce ((root.said subspecs .ios).flatMap (·.compilerFlags) ++
      valuesOf root subspecs "OTHER_CFLAGS") := by
  rw [objcOpts_collect, foldl_addWord_nil, compilerWords_eq, wordsOnce, List.flatMap_append]

theorem swiftOpts_eq_wordsOnce : (collect root subspecs).swiftOpts =
    wordsOnce (valuesOf root subspecs "OTHER_SWIFT_FLAGS") := by
  rw [swiftOpts_collect, foldl_addWord_nil, wordsOnce]

theorem linkOpts_eq_wordsOnce : (collect root subspecs).linkOpts =
    wordsOnce (valuesOf root subspecs "OTHER_LDFLAGS") := by
  rw [linkOpts_collect, foldl_addWord_nil, wordsOnce]

theorem getElem?_xcconfig (key : String) : (collect root subspecs).xcconfig[key]? =
    if key ∈ flagKeys ∨ valuesOf root subspecs key = [] then none
    else some (String.intercalate " " (valuesOf root subspecs key)) := by
  rw [getElem?_xcconfig_collect, getElem?_settings]
  by_cases hk : key ∈ flagKeys
  · rw [if_pos hk, if_pos (Or.inl hk)]
  · by_cases hv : valuesOf root subspecs key = [] <;> simp [hk, hv]

/-- The words of a setting are found where it goes. -/
theorem mem_wordsAt_collect {key word : String}
    (h : word ∈ (valuesOf root subspecs key).flatMap wordsOf) :
    word = inherited ∨ word ∈ (collect root subspecs).wordsAt key := by
  by_cases hk : key ∈ flagKeys
  · rw [flagKeys, List.mem_cons, List.mem_cons, List.mem_singleton] at hk
    rcases hk with rfl | rfl | rfl
    · rw [wordsAt, if_pos rfl, objcOpts_eq_wordsOnce]
      exact eq_or_mem_wordsOnce (by rw [List.flatMap_append]; exact List.mem_append_right _ h)
    · rw [wordsAt, if_neg (by decide), if_pos rfl, swiftOpts_eq_wordsOnce]
      exact eq_or_mem_wordsOnce h
    · rw [wordsAt, if_neg (by decide), if_neg (by decide), if_pos rfl, linkOpts_eq_wordsOnce]
      exact eq_or_mem_wordsOnce h
  · have hv : valuesOf root subspecs key ≠ [] := by
      rintro hv
      rw [hv] at h
      exact List.not_mem_nil h
    right
    have hkeys := hk
    simp only [flagKeys, List.mem_cons, List.not_mem_nil, or_false, not_or] at hkeys
    rw [wordsAt, if_neg hkeys.1, if_neg hkeys.2.1, if_neg hkeys.2.2, getElem?_xcconfig,
      if_neg (by simp [hk, hv]), Option.getD_some, wordsOf_intercalate]
    exact h

/-- The words of compiler flags and of the settings that are lists of flags go to those
lists, in order and each once; every other setting keeps its values, joined by blanks.
So a setting goes to one place, and there all its words are found. -/
theorem collect_routes :
    let said := root.said subspecs .ios
    let values (key : String) := said.filterMap (·.xcconfig[key]?)
    let flags := collect root subspecs
    flags.objcOpts = wordsOnce (said.flatMap (·.compilerFlags) ++ values "OTHER_CFLAGS") ∧
      flags.swiftOpts = wordsOnce (values "OTHER_SWIFT_FLAGS") ∧
      flags.linkOpts = wordsOnce (values "OTHER_LDFLAGS") ∧
      (∀ key, flags.xcconfig[key]? = if key ∈ flagKeys ∨ values key = [] then none
        else some (String.intercalate " " (values key))) ∧
      ∀ key, ∀ value ∈ values key, ∀ word ∈ wordsOf value,
        word = inherited ∨ word ∈ flags.wordsAt key := by
  intro said values flags
  have hvalues : values = valuesOf root subspecs :=
    funext fun key => (valuesOf_eq root subspecs key).symm
  rw [hvalues]
  refine ⟨objcOpts_eq_wordsOnce root subspecs, swiftOpts_eq_wordsOnce root subspecs,
    linkOpts_eq_wordsOnce root subspecs, getElem?_xcconfig root subspecs, ?_⟩
  intro key value hv word hw
  exact mem_wordsAt_collect root subspecs (List.mem_flatMap.2 ⟨value, hv, hw⟩)

end Collect

end Flags

end PodTarget
