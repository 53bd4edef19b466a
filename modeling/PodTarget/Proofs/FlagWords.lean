import PodTarget.Flags
import PodTarget.Proofs.Collection

/-! Where the words of compiler flags and build settings go. Each list of flags
holds the words of its sources in order, each once; putting the values of a
setting together with blanks keeps their words apart, so none is lost. -/

namespace PodTarget

open Text

namespace Flags

def wordsOf (text : String) : List String := (words text.toList).map .ofList

theorem wordsOf_intercalate (values : List String) :
    wordsOf (String.intercalate " " values) = values.flatMap wordsOf := by
  induction values with
  | nil => rfl
  | cons v values ih =>
    cases values with
    | nil => simp
    | cons v' values =>
      rw [List.flatMap_cons, ← ih, String.intercalate_cons_cons]
      have happ : (v ++ " " ++ String.intercalate " " (v' :: values)).toList =
          v.toList ++ ' ' :: (String.intercalate " " (v' :: values)).toList := by simp
      rw [wordsOf, happ, words_append (by decide), List.map_append]
      rfl

theorem addWords_eq (flags : List String) (text : String) :
    addWords flags text = (wordsOf text).foldl addWord flags := rfl

theorem foldl_addWords (texts flags : List String) :
    texts.foldl addWords flags = (texts.flatMap wordsOf).foldl addWord flags := by
  induction texts generalizing flags with
  | nil => rfl
  | cons t texts ih => rw [List.foldl_cons, ih, addWords_eq, List.flatMap_cons, List.foldl_append]

theorem mem_foldl_addWord {l flags : List String} {w : String} :
    w ∈ l.foldl addWord flags ↔ w ∈ flags ∨ w ∈ l ∧ w ≠ inherited := by
  induction l generalizing flags with
  | nil => simp
  | cons v l ih =>
    rw [List.foldl_cons, ih, addWord]
    split
    case isTrue h =>
      rcases h with rfl | h
      · grind
      · grind
    case isFalse h => grind

/-- The values of a build setting for the primary platform, in their order. -/
def valuesOf (root : Declaration) (subspecs : List Declaration) (key : String) : List String :=
  ((root.collect subspecs settings).primary[key]?).getD []

/-- The compiler flags of a pod and its subspecs, before any build setting. -/
def compilerWords (root : Declaration) (subspecs : List Declaration) : List String :=
  (root.collect subspecs (·.compilerFlags)).primary.flatMap wordsOf

/-- The settings whose words go to a list of flags. -/
def flagKeys : List String := ["OTHER_CFLAGS", "OTHER_SWIFT_FLAGS", "OTHER_LDFLAGS"]

section AddSetting

variable (f : Flags) (e : String × List String)

theorem objcOpts_addSetting : (addSetting f e).objcOpts =
    if e.1 = "OTHER_CFLAGS" then addWords f.objcOpts (String.intercalate " " e.2)
    else f.objcOpts := by
  grind [addSetting]

theorem swiftOpts_addSetting : (addSetting f e).swiftOpts =
    if e.1 = "OTHER_SWIFT_FLAGS" then addWords f.swiftOpts (String.intercalate " " e.2)
    else f.swiftOpts := by
  grind [addSetting]

theorem linkOpts_addSetting : (addSetting f e).linkOpts =
    if e.1 = "OTHER_LDFLAGS" then addWords f.linkOpts (String.intercalate " " e.2)
    else f.linkOpts := by
  grind [addSetting]

theorem xcconfig_addSetting : (addSetting f e).xcconfig =
    if e.1 ∈ flagKeys then f.xcconfig
    else f.xcconfig.insert e.1 (String.intercalate " " e.2) := by
  grind [addSetting, flagKeys]

end AddSetting

section Collect

variable (root : Declaration) (subspecs : List Declaration)

/-- What all settings do to a part of the flags that only the one at `key` changes. -/
theorem view_collect {τ : Type} (key : String) (view : Flags → τ) (act : List String → τ → τ)
    (hit : ∀ f v, view (addSetting f (key, v)) = act v (view f))
    (miss : ∀ f e, e.1 ≠ key → view (addSetting f e) = view f) :
    view (collect root subspecs) =
      let start := view { empty with objcOpts := (compilerWords root subspecs).foldl addWord [] }
      (root.collect subspecs settings).primary[key]?.elim start (act · start) := by
  rw [collect, view_foldl_toList _ key view act addSetting hit miss, foldl_addWords]
  rfl

/-- The words of a setting that goes to a list of flags are added to that list. -/
theorem addWords_collect (key : String) (view : Flags → List String)
    (hview : ∀ f e, view (addSetting f e) =
      if e.1 = key then addWords (view f) (String.intercalate " " e.2) else view f) :
    view (collect root subspecs) = ((valuesOf root subspecs key).flatMap wordsOf).foldl addWord
      (view { empty with objcOpts := (compilerWords root subspecs).foldl addWord [] }) := by
  rw [view_collect root subspecs key view (fun v flags => addWords flags (String.intercalate " " v))
    (fun f v => by rw [hview, if_pos rfl]) (fun f e he => by rw [hview, if_neg he]), valuesOf]
  cases (root.collect subspecs settings).primary[key]? with
  | none => rfl
  | some values => simp [addWords_eq, wordsOf_intercalate]

theorem objcOpts_collect : (collect root subspecs).objcOpts =
    (compilerWords root subspecs ++
      (valuesOf root subspecs "OTHER_CFLAGS").flatMap wordsOf).foldl addWord [] := by
  rw [addWords_collect root subspecs _ (·.objcOpts) objcOpts_addSetting, List.foldl_append]

theorem swiftOpts_collect : (collect root subspecs).swiftOpts =
    ((valuesOf root subspecs "OTHER_SWIFT_FLAGS").flatMap wordsOf).foldl addWord [] :=
  addWords_collect root subspecs _ (·.swiftOpts) swiftOpts_addSetting

theorem linkOpts_collect : (collect root subspecs).linkOpts =
    ((valuesOf root subspecs "OTHER_LDFLAGS").flatMap wordsOf).foldl addWord [] :=
  addWords_collect root subspecs _ (·.linkOpts) linkOpts_addSetting

/-- A setting that goes to no list of flags keeps its values, joined by blanks. -/
theorem getElem?_xcconfig_collect (key : String) : (collect root subspecs).xcconfig[key]? =
    if key ∈ flagKeys then none
    else (root.collect subspecs settings).primary[key]?.map (String.intercalate " ") := by
  have miss : ∀ f e, e.1 ≠ key → (addSetting f e).xcconfig[key]? = f.xcconfig[key]? := by
    intro f e he
    rw [xcconfig_addSetting]
    split
    · rfl
    · simp [Std.ExtTreeMap.getElem?_insert, he]
  split
  case isTrue hk =>
    rw [view_collect root subspecs key (·.xcconfig[key]?) (fun _ old => old)
      (fun f v => by rw [xcconfig_addSetting, if_pos hk]) miss]
    cases (root.collect subspecs settings).primary[key]? <;> rfl
  case isFalse hk =>
    rw [view_collect root subspecs key (·.xcconfig[key]?)
      (fun values _ => some (String.intercalate " " values))
      (fun f v => by simp [xcconfig_addSetting, hk]) miss]
    cases (root.collect subspecs settings).primary[key]? <;> rfl

end Collect

end Flags

end PodTarget
