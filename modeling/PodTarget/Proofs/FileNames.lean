import Mathlib.Data.List.TakeWhile
import PodTarget.Vendored.Probe
import PodTarget.Glob.Extension

/-! The last component of a path, read in two ways: for its extension, as the text
after the last slash, and for the name of a bundle, as the last component that means
something. The two agree where there is an extension that is not empty, since such a
component is neither a dot nor leads upwards. -/

namespace PodTarget

open Text

/-- The last component of a path: what stands after the last slash, where slashes
at the end do not count. -/
def EndsIn (path name : List Char) : Prop :=
  ∃ (front : List Char) (n : Nat), path = front ++ name ++ List.replicate n '/' ∧
    (front = [] ∨ ∃ directory, front = directory ++ ['/']) ∧ name ≠ [] ∧ '/' ∉ name

theorem EndsIn.append_slashes {path name : List Char} (h : EndsIn path name) (k : Nat) :
    EndsIn (path ++ List.replicate k '/') name := by
  obtain ⟨front, n, rfl, hrest⟩ := h
  exact ⟨front, n + k, by rw [List.append_assoc, List.replicate_append_replicate], hrest⟩

namespace Glob

theorem dropWhile_reverse_append_slashes (s : List Char) (n : Nat) :
    (s ++ List.replicate n '/').reverse.dropWhile (· = '/') =
      s.reverse.dropWhile (· = '/') := by
  rw [List.reverse_append, List.reverse_replicate, List.dropWhile_append, List.dropWhile_replicate]
  simp

theorem trimSlashes_append_slashes (s : List Char) (n : Nat) :
    trimSlashes (s ++ List.replicate n '/') = trimSlashes s := by
  rw [trimSlashes, dropWhile_reverse_append_slashes, trimSlashes]

theorem lastComponent_append_slashes (s : List Char) (n : Nat) :
    lastComponent (s ++ List.replicate n '/') = lastComponent s := by
  rw [lastComponent, dropWhile_reverse_append_slashes, lastComponent]

theorem extensionOf?_append_slashes (s : List Char) (n : Nat) :
    extensionOf? (s ++ List.replicate n '/') = extensionOf? s := by
  rw [extensionOf?, lastComponent_append_slashes, extensionOf?]

theorem lastComponent_of_endsIn {path name : List Char} (h : EndsIn path name) :
    lastComponent path = name := by
  obtain ⟨front, n, rfl, hfront, hne, hslash⟩ := h
  have hname : ∀ c ∈ name.reverse, c ≠ '/' := by
    rintro c hc rfl
    exact hslash (List.mem_reverse.1 hc)
  have hend : front.reverse.takeWhile (· ≠ '/') = [] := by
    rcases hfront with rfl | ⟨directory, rfl⟩
    · rfl
    · simp
  obtain ⟨c, rest, hc⟩ := List.exists_cons_of_ne_nil (mt List.reverse_eq_nil_iff.1 hne)
  have hdrop : (name.reverse ++ front.reverse).dropWhile (· = '/') =
      name.reverse ++ front.reverse := by
    rw [hc, List.cons_append, List.dropWhile_cons_of_neg]
    simpa using hname c (hc ▸ List.mem_cons_self)
  rw [lastComponent_append_slashes, lastComponent, List.reverse_append, hdrop,
    List.takeWhile_append_of_pos (by simpa using hname), hend, List.append_nil,
    List.reverse_reverse]

theorem eq_of_endsIn {path name name' : List Char} (h : EndsIn path name)
    (h' : EndsIn path name') : name = name' :=
  (lastComponent_of_endsIn h).symm.trans (lastComponent_of_endsIn h')

theorem takeWhile_slash_eq_replicate (s : List Char) :
    s.takeWhile (· = '/') = List.replicate (s.takeWhile (· = '/')).length '/' := by
  refine List.eq_replicate_iff.2 ⟨rfl, fun c hc => ?_⟩
  simpa using List.mem_takeWhile_imp hc

theorem endsIn_lastComponent {path : List Char} (h : lastComponent path ≠ []) :
    EndsIn path (lastComponent path) := by
  let slashes := path.reverse.takeWhile (· = '/')
  let rest := path.reverse.dropWhile (· = '/')
  have hslashes : slashes = List.replicate slashes.length '/' :=
    takeWhile_slash_eq_replicate path.reverse
  have hpath : path = (rest.dropWhile (· ≠ '/')).reverse ++ (rest.takeWhile (· ≠ '/')).reverse ++
      slashes.reverse := by
    rw [← List.reverse_append, List.takeWhile_append_dropWhile, ← List.reverse_append,
      List.takeWhile_append_dropWhile, List.reverse_reverse]
  refine ⟨(rest.dropWhile (· ≠ '/')).reverse, slashes.length, ?_, ?_, h, ?_⟩
  · rwa [hslashes, List.reverse_replicate] at hpath
  · have hhead := List.head?_dropWhile_not (· ≠ '/') rest
    cases hfront : rest.dropWhile (· ≠ '/') with
    | nil => exact Or.inl rfl
    | cons c directory =>
      rw [hfront] at hhead
      obtain rfl : c = '/' := by simpa using hhead
      exact Or.inr ⟨directory.reverse, List.reverse_cons⟩
  · rw [lastComponent, List.mem_reverse]
    intro hc
    simpa using List.mem_takeWhile_imp hc

/-- What is trimmed are slashes only. -/
theorem exists_trimSlashes_append (s : List Char) :
    ∃ n, s = trimSlashes s ++ List.replicate n '/' := by
  refine ⟨(s.reverse.takeWhile (· = '/')).length, ?_⟩
  rw [trimSlashes, ← List.reverse_replicate, ← takeWhile_slash_eq_replicate,
    ← List.reverse_append, List.takeWhile_append_dropWhile, List.reverse_reverse]

theorem trimSlashes_prefix_self (s : List Char) : trimSlashes s <+: s := by
  obtain ⟨n, hs⟩ := exists_trimSlashes_append s
  exact ⟨_, hs.symm⟩

theorem trimSlashes_trimSlashes (s : List Char) : trimSlashes (trimSlashes s) = trimSlashes s := by
  obtain ⟨n, hs⟩ := exists_trimSlashes_append s
  have htrim := trimSlashes_append_slashes (trimSlashes s) n
  rw [← hs] at htrim
  exact htrim.symm

theorem trimSlashes_append {front name : List Char} (hne : name ≠ []) (hslash : '/' ∉ name) :
    trimSlashes (front ++ name) = front ++ name := by
  obtain ⟨c, rest, hc⟩ := List.exists_cons_of_ne_nil (mt List.reverse_eq_nil_iff.1 hne)
  have hfirst : c ≠ '/' := by
    rintro rfl
    exact hslash (List.mem_reverse.1 (hc ▸ List.mem_cons_self))
  have hdrop : (front ++ name).reverse.dropWhile (· = '/') = (front ++ name).reverse := by
    rw [List.reverse_append, hc, List.cons_append,
      List.dropWhile_cons_of_neg (by simpa using hfirst)]
  rw [trimSlashes, hdrop, List.reverse_reverse]

/-- Without the slashes at its end a path is what leads to its last component, and that. -/
theorem exists_front {s : List Char} (h : lastComponent s ≠ []) :
    ∃ front, trimSlashes s = front ++ lastComponent s ∧
      (front = [] ∨ ∃ directory, front = directory ++ ['/']) ∧ '/' ∉ lastComponent s := by
  obtain ⟨front, n, hs, hfront, hne, hslash⟩ := endsIn_lastComponent h
  refine ⟨front, ?_, hfront, hslash⟩
  have htrim := congrArg trimSlashes hs
  rwa [trimSlashes_append_slashes, trimSlashes_append hne hslash] at htrim

/-- From the back, what comes up to the first dot stands after the last one. -/
theorem span_reverse_of_dot (stem : List Char) {ext : List Char} (hdot : '.' ∉ ext) :
    (stem ++ '.' :: ext).reverse.takeWhile (· ≠ '.') = ext.reverse ∧
      (stem ++ '.' :: ext).reverse.dropWhile (· ≠ '.') = '.' :: stem.reverse := by
  have hext : ∀ c ∈ ext.reverse, decide (c ≠ '.') = true := by
    intro c hc
    rw [decide_eq_true_eq]
    rintro rfl
    exact hdot (List.mem_reverse.1 hc)
  have hrev : (stem ++ '.' :: ext).reverse = ext.reverse ++ '.' :: stem.reverse := by simp
  rw [hrev, List.takeWhile_append_of_pos hext, List.dropWhile_append_of_pos hext]
  simp

/-- What stands before and after the last dot. -/
theorem cutLastDot?_eq_some_iff {s a b : List Char} :
    cutLastDot? s = some (a, b) ↔ s = a ++ '.' :: b ∧ '.' ∉ b := by
  constructor
  · intro h
    have hs : s.reverse.takeWhile (· ≠ '.') ++ s.reverse.dropWhile (· ≠ '.') = s.reverse :=
      List.takeWhile_append_dropWhile
    have hhead := List.head?_dropWhile_not (· ≠ '.') s.reverse
    rw [cutLastDot?] at h
    split at h
    · nomatch h
    · next c stem hstem =>
      rw [hstem] at hs hhead
      obtain rfl : c = '.' := by simpa using hhead
      obtain ⟨rfl, rfl⟩ := Prod.mk.inj (Option.some.inj h)
      refine ⟨List.reverse_inj.1 ?_, fun hdot => ?_⟩
      · refine hs.symm.trans ?_
        rw [List.reverse_append, List.reverse_cons, List.reverse_reverse, List.reverse_reverse,
          List.append_assoc, List.singleton_append]
      · simpa using List.mem_takeWhile_imp (List.mem_reverse.1 hdot)
  · rintro ⟨rfl, hdot⟩
    obtain ⟨htake, hdrop⟩ := span_reverse_of_dot a hdot
    rw [cutLastDot?, hdrop, htake, List.reverse_reverse]
    show some (a.reverse.reverse, b) = some (a, b)
    rw [List.reverse_reverse]

theorem extensionOf?_eq_some_iff {s ext : List Char} :
    extensionOf? s = some ext ↔ ∃ stem, stem ≠ [] ∧ '.' ∉ ext ∧
      lastComponent s = stem ++ '.' :: ext := by
  rw [extensionOf?]
  constructor
  · intro h
    split at h
    · next c stem ext' hcut =>
      obtain rfl := Option.some.inj h
      obtain ⟨hlast, hdot⟩ := cutLastDot?_eq_some_iff.1 hcut
      exact ⟨c :: stem, List.cons_ne_nil _ _, hdot, hlast⟩
    · nomatch h
  · rintro ⟨stem, hstem, hdot, hlast⟩
    rw [cutLastDot?_eq_some_iff.2 ⟨hlast, hdot⟩]
    obtain ⟨c, rest, rfl⟩ := List.exists_cons_of_ne_nil hstem
    rfl

end Glob

namespace Text

theorem components_append_slash (a b : List Char) :
    components (a ++ '/' :: b) = components a ++ components b := by
  rw [components, List.splitOnP_append_cons _ _ (by simp), List.filter_append, components,
    components]

theorem components_replicate_slash (n : Nat) : components (List.replicate n '/') = [] := by
  induction n with
  | zero => rfl
  | succ n ih =>
    have := components_append_slash [] (List.replicate n '/')
    rwa [ih, List.append_nil, List.nil_append, ← List.replicate_succ] at this

theorem components_of_no_slash {name : List Char} (hslash : '/' ∉ name) (hne : name ≠ [])
    (hdot : name ≠ ['.']) : components name = [name] := by
  have hsplit : name.splitOnP (· = '/') = [name] := by
    refine List.splitOnP_eq_singleton fun c hc => ?_
    rw [decide_eq_false_iff_not]
    rintro rfl
    exact hslash hc
  rw [components, hsplit]
  simp [hne, hdot]

/-- The last component is the file name, unless it is a dot or leads upwards. -/
theorem fileName?_of_endsIn {path name : List Char} (h : EndsIn path name) (hdot : name ≠ ['.'])
    (hup : name ≠ ['.', '.']) : fileName? path = some name := by
  obtain ⟨front, n, rfl, hfront, hne, hslash⟩ := h
  have hname := components_of_no_slash hslash hne hdot
  have hmiddle : ∃ rest, components (front ++ name) = rest ++ [name] := by
    rcases hfront with rfl | ⟨directory, rfl⟩
    · exact ⟨[], hname⟩
    · refine ⟨components directory, ?_⟩
      rw [List.append_assoc, List.singleton_append, components_append_slash, hname]
  obtain ⟨rest, hrest⟩ := hmiddle
  have hall : components (front ++ name ++ List.replicate n '/') = rest ++ [name] := by
    cases n with
    | zero => rw [List.replicate_zero, List.append_nil, hrest]
    | succ n =>
      rw [List.replicate_succ, components_append_slash, components_replicate_slash, hrest,
        List.append_nil]
  rw [fileName?, hall, List.getLast?_concat]
  simp [hup]

theorem stem_append_dot {stem ext : List Char} (hstem : stem ≠ []) (hdot : '.' ∉ ext) :
    Text.stem (stem ++ '.' :: ext) = stem := by
  obtain ⟨c, rest, hc⟩ := List.exists_cons_of_ne_nil (mt List.reverse_eq_nil_iff.1 hstem)
  rw [Text.stem, (Glob.span_reverse_of_dot stem hdot).2, hc]
  show (c :: rest).reverse = stem
  rw [← hc, List.reverse_reverse]

end Text

/-- A path with an extension that is not empty ends in the name of a bundle with
that extension. -/
theorem endsIn_of_extension? {path ext : String} (h : Glob.extension? path = some ext)
    (hext : ext ≠ "") : EndsIn path.toList (bundleName path ++ "." ++ ext).toList ∧
      fileNameOr path = bundleName path ++ "." ++ ext := by
  rw [Glob.extension?, Option.map_eq_some_iff] at h
  obtain ⟨e, he, rfl⟩ := h
  obtain ⟨stem, hstem, hdot, hlast⟩ := Glob.extensionOf?_eq_some_iff.1 he
  have hends : EndsIn path.toList (stem ++ '.' :: e) :=
    hlast ▸ Glob.endsIn_lastComponent (by simp [hlast])
  have hlong : 2 < (stem ++ '.' :: e).length := by
    have := List.length_pos_iff.2 hstem
    have : 0 < e.length := List.length_pos_iff.2 (by simpa using hext)
    rw [List.length_append, List.length_cons]
    omega
  have hfile : fileName? path.toList = some (stem ++ '.' :: e) := by
    refine fileName?_of_endsIn hends (fun hdot => ?_) (fun hup => ?_)
    · exact absurd (hdot ▸ hlong) (by decide)
    · exact absurd (hup ▸ hlong) (by decide)
  have hname : bundleName path = .ofList stem := by
    rw [bundleName, hfile, Option.map_some, Option.getD_some, stem_append_dot hstem hdot]
  have hwhole : bundleName path ++ "." ++ .ofList e = .ofList (stem ++ '.' :: e) := by
    rw [hname]
    exact String.toList_injective (by simp)
  rw [hwhole, String.toList_ofList]
  exact ⟨hends, by rw [fileNameOr, hfile, Option.map_some, Option.getD_some]⟩

end PodTarget
