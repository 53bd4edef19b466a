import PodTarget.Command.Disk
import PodTarget.Proofs.OwnPaths
import PodTarget.Proofs.RoundTrip

/-! What becomes of a request for subspecs. The names are checked in their order before
anything is made, so the first one that is not there is told and nothing is written. The
search reads the names in the same way, so where none is refused the target has the
subspec at each of them. What is nested there comes with it, but for the empty path: the
search looks for a slash behind a path, and a path in an empty one starts without. -/

namespace PodTarget.Command

open Podspec

/-- A name that is not read as the path of a subspec, after names that are. -/
def FirstUnknown (spec : Podspec) (sep : Text.Separator) (requested : List String)
    (name : String) : Prop :=
  ∃ front back, requested = front ++ name :: back ∧
    (∀ n ∈ front, pathOf spec.name sep n ∈ spec.paths) ∧ pathOf spec.name sep name ∉ spec.paths

section Names

variable {spec : Podspec} {sep : Text.Separator} {requested : List String} {name : String}

theorem all_ne_iff {path : String} :
    (spec.flatten.map (·.1)).all (· ≠ path) = true ↔ path ∉ spec.paths := by
  rw [List.all_eq_true, paths]
  simp only [decide_eq_true_eq]
  exact ⟨fun h hp => h _ hp rfl, fun h q hq he => h (he ▸ hq)⟩

theorem firstUnknown?_eq_some_iff :
    firstUnknown? spec sep requested = some name ↔ FirstUnknown spec sep requested name := by
  rw [firstUnknown?, List.find?_eq_some_iff_append, all_ne_iff]
  simp only [Bool.not_eq_true', ← Bool.not_eq_true, all_ne_iff, not_not]
  constructor
  · rintro ⟨hname, front, back, hsplit, hfront⟩
    exact ⟨front, back, hsplit, hfront, hname⟩
  · rintro ⟨front, back, hsplit, hfront, hname⟩
    exact ⟨hname, front, back, hsplit, hfront⟩

theorem firstUnknown?_eq_none_iff : firstUnknown? spec sep requested = none ↔
    ∀ n ∈ requested, pathOf spec.name sep n ∈ spec.paths := by
  rw [firstUnknown?, List.find?_eq_none]
  simp only [all_ne_iff, not_not]

theorem exists_firstUnknown_iff : (∃ name, FirstUnknown spec sep requested name) ↔
    ∃ n ∈ requested, pathOf spec.name sep n ∉ spec.paths := by
  have hsome : (∃ name, FirstUnknown spec sep requested name) ↔
      firstUnknown? spec sep requested ≠ none := by
    rw [Option.ne_none_iff_exists']
    exact exists_congr fun _ => firstUnknown?_eq_some_iff.symm
  rw [hsome, ne_eq, firstUnknown?_eq_none_iff, not_forall]
  exact exists_congr fun _ => Classical.not_imp

end Names

def Request.textOf (r : Request) (t : FrameworkTarget) : String :=
  match r.format with
  | .starlark => t.buildFile.render
  | .json => t.record

variable {σ : Type} {fs : FileAccess (StateM σ)} {r : Request} {o : Options} {spec : Podspec}
  {w w' : σ}

/-- The options and the podspec of a request are loaded, which leaves `w'` of `w`. -/
def Loads (fs : FileAccess (StateM σ)) (r : Request) (w : σ) (o : Options) (spec : Podspec)
    (w' : σ) : Prop :=
  ∃ v, (loadOptions fs r.config).run.run w = (.ok o, v) ∧
    (loadPodspec fs r.podspec).run.run v = (.ok spec, w')

theorem run_bind_of_ok {α β : Type} {x : ExceptT Failure (StateM σ) α}
    {f : α → ExceptT Failure (StateM σ) β} {a : α} (h : x.run.run w = (.ok a, w')) :
    (x >>= f).run.run w = (f a).run.run w' := by
  rw [ExceptT.run_bind, StateT.run_bind, h]
  rfl

/-- Once all is loaded, nothing is written before the names are checked. -/
theorem Loads.run_generate (h : Loads fs r w o spec w') :
    (run fs (.generate r)).run.run w =
      match firstUnknown? spec o.separator r.subspecs with
      | some name => (.error (.unknownSubspec spec.name name), w')
      | none => (writeOut fs (r.textOf (r.target spec (r.adjust o))) r.output).run.run w' := by
  obtain ⟨v, ho, hs⟩ := h
  rw [run, run_bind_of_ok ho, run_bind_of_ok hs, Request.text]
  -- The check decides what is bound, so it is brought to the front before it is split.
  show StateT.run (ExceptT.run (ExceptT.mk (pure
    (match firstUnknown? spec o.separator r.subspecs with
      | some name => _
      | none => _)) >>= _)) w' = _
  cases firstUnknown? spec o.separator r.subspecs with
  | some name => rfl
  | none =>
    rw [Request.textOf]
    cases r.format with
    | starlark => rfl
    | json => rfl

theorem writeOut_ne_unknownSubspec {text pod name : String} {output : Option String} {w'' : σ} :
    (writeOut fs text output).run.run w ≠ (.error (.unknownSubspec pod name), w'') := by
  cases output with
  | none => exact nofun
  | some path =>
    rw [writeOut, ExceptT.run_mk, StateT.run_bind]
    obtain ⟨made, v⟩ := (fs.ensureAll (directoriesOf path)).run w
    cases made with
    | error e => exact nofun
    | ok _ =>
      show StateT.run (fs.write path text >>= _) v ≠ _
      rw [StateT.run_bind]
      obtain ⟨written, v'⟩ := (fs.write path text).run v
      cases written with
      | error e => exact nofun
      | ok _ => exact nofun

/-- A request is refused for an unknown subspec exactly if some name is not read as the
path of one. The first of these is told, and the files are left as they were loaded. If
none is refused, the target is made from subspecs among which there is, for each name
requested, every one at its path, with all that is nested there if the path is not empty. -/
theorem generate_requested_subspecs (h : Loads fs r w o spec w') :
    ((∃ pod name w'', (run fs (.generate r)).run.run w =
        (.error (.unknownSubspec pod name), w'')) ↔
      ∃ n ∈ r.subspecs, pathOf spec.name o.separator n ∉ spec.paths) ∧
    (∀ pod name w'', (run fs (.generate r)).run.run w =
        (.error (.unknownSubspec pod name), w'') ↔
      pod = spec.name ∧ w'' = w' ∧ FirstUnknown spec o.separator r.subspecs name) ∧
    (∀ arguments name, ofArguments arguments = .ok (.generate r) →
      FirstUnknown spec o.separator r.subspecs name →
      (runProgram fs arguments).run w =
        (⟨1, "", "error: " ++ (spec.name ++ " has no subspec named '" ++ name ++ "'") ++ "\n"⟩,
          w')) ∧
    ((∀ n ∈ r.subspecs, pathOf spec.name o.separator n ∈ spec.paths) →
      ∃ kept : List (String × Podspec), kept.Sublist spec.subtrees ∧
        (∀ n ∈ r.subspecs, ∀ t, (pathOf spec.name o.separator n, t) ∈ spec.subtrees →
          (pathOf spec.name o.separator n, t) ∈ kept ∧
            (pathOf spec.name o.separator n ≠ "" →
              ∀ e ∈ t.nested (pathOf spec.name o.separator n), e ∈ kept)) ∧
        (run fs (.generate r)).run.run w =
          (writeOut fs (r.textOf (r.infoPlists.foldl FrameworkTarget.addInfoPlist
            (.assemble (.ofOptions (r.adjust o)) spec.declaration (kept.map (·.2.declaration))
              (.ofList r.deps)))) r.output).run.run w') := by
  have hiff (pod name : String) (w'' : σ) : (run fs (.generate r)).run.run w =
      (.error (.unknownSubspec pod name), w'') ↔
        pod = spec.name ∧ w'' = w' ∧ FirstUnknown spec o.separator r.subspecs name := by
    rw [h.run_generate, ← firstUnknown?_eq_some_iff]
    cases firstUnknown? spec o.separator r.subspecs with
    | none => simp [writeOut_ne_unknownSubspec]
    | some first =>
      constructor
      · intro heq
        obtain ⟨he, rfl⟩ := Prod.mk.inj heq
        cases he
        exact ⟨rfl, rfl, rfl⟩
      · rintro ⟨rfl, rfl, hname⟩
        rw [Option.some.inj hname]
  refine ⟨?_, hiff, fun arguments name ha hname => ?_, fun hknown => ?_⟩
  · simp only [hiff, exists_eq_left, exists_and_left]
    rw [exists_firstUnknown_iff]
  · have hfail := (hiff spec.name name w').2 ⟨rfl, rfl, hname⟩
    rw [runProgram, ha]
    show StateT.run ((run fs (.generate r)).run >>= _) w = _
    rw [StateT.run_bind, hfail]
    rfl
  · obtain ⟨kept, hsub, hmem, hsel⟩ := spec.exists_select_eq_map r.subspecs o.separator
    refine ⟨kept, hsub, fun n hn t ht => ?_, ?_⟩
    · have hreached : Reached (broughtIn spec.name o.separator spec.flatten) _
          (pathOf spec.name o.separator n) := reached_of_isRootName (Or.inl hn)
      refine ⟨(hmem _).2 ⟨ht, hreached⟩, fun hne e he => ?_⟩
      exact (hmem e).2 ⟨mem_subtrees_of_nested ht he, reached_of_nested hreached hne ht he⟩
    · rw [h.run_generate, firstUnknown?_eq_none_iff.2 hknown, ← hsel]
      rfl

def layeredDisk : Disk := ⟨.directory [("Foo.podspec.json", .file layered.toJson)], []⟩

theorem read_layeredDisk : layeredDisk.read "Foo.podspec.json" = .ok layered.toJson := by
  rfl

theorem ofJson_layered : Podspec.ofJson layered.toJson = .ok layered := by
  rw [toJson, ofJson_eq_decode (plain_toDocument layered).printed.textOf]
  exact reads_toDocument layered 127

theorem run_load {ε α : Type} {decode : String → Except ε α} {d : Disk} {path content : String}
    {a : α} (hread : d.read path = .ok content) (hdecode : decode content = .ok a) :
    (load Disk.access decode path).run d = (.ok a, d) := by
  have haccess : (Disk.access.read path).run d = (.ok content, d) := by
    rw [← hread]
    rfl
  rw [load, StateT.run_bind, haccess]
  simp only [bind, hdecode]
  rfl

theorem run_loadPodspec {d : Disk} {path content : String} {spec : Podspec}
    (hread : d.read path = .ok content) (hdecode : Podspec.ofJson content = .ok spec) :
    (loadPodspec Disk.access path).run.run d = (.ok spec, d) := by
  rw [loadPodspec, ExceptT.run_mk, StateT.run_bind, run_load hread hdecode]
  rfl

def layeredRequest (names : List String) : Request :=
  { requestFor "Core" with subspecs := names }

theorem loads_layered (names : List String) :
    Loads Disk.access (layeredRequest names) layeredDisk .default layered layeredDisk :=
  ⟨layeredDisk, rfl, run_loadPodspec read_layeredDisk ofJson_layered⟩

/-- Of two names that are not there the first is told, though one before it is there. -/
theorem generate_requested_subspecs_layered :
    Loads Disk.access (layeredRequest ["Foo/Core", "Nope", "Gone"]) layeredDisk .default layered
      layeredDisk ∧
    (runProgram Disk.access ["generate", "Foo.podspec.json", "--subspec", "Foo/Core", "--subspec",
        "Nope", "--subspec=Gone"]).run layeredDisk =
      (⟨1, "", "error: Foo has no subspec named 'Nope'\n"⟩, layeredDisk) ∧
    Loads Disk.access (layeredRequest ["Foo/Core"]) layeredDisk .default layered layeredDisk ∧
    pathOf "Foo" Options.default.separator "Foo/Core" = "Core" ∧
    ∃ kept : List (String × Podspec), kept.Sublist layered.subtrees ∧
      ("Core", ⟨.named "Core", [⟨.named "Extras", []⟩]⟩) ∈ kept ∧
      ("Core/Extras", ⟨.named "Extras", []⟩) ∈ kept ∧
      (run Disk.access (.generate (layeredRequest ["Foo/Core"]))).run.run layeredDisk =
        (.ok (FrameworkTarget.assemble (.ofOptions .default) layered.declaration
          (kept.map (·.2.declaration)) ∅).buildFile.render, layeredDisk) := by
  obtain ⟨-, -, hrefused, -⟩ := generate_requested_subspecs
    (loads_layered ["Foo/Core", "Nope", "Gone"])
  obtain ⟨-, -, -, haccepted⟩ := generate_requested_subspecs (loads_layered ["Foo/Core"])
  have hnope : FirstUnknown layered Options.default.separator ["Foo/Core", "Nope", "Gone"] "Nope" :=
    firstUnknown?_eq_some_iff.1 (by decide +kernel)
  have hpath : pathOf layered.name Options.default.separator "Foo/Core" = "Core" := by
    decide +kernel
  have hknown : ∀ n ∈ (layeredRequest ["Foo/Core"]).subspecs,
      pathOf layered.name Options.default.separator n ∈ layered.paths :=
    firstUnknown?_eq_none_iff.1 (by decide +kernel)
  obtain ⟨kept, hsub, hkept, hrun⟩ := haccepted hknown
  have hcore : ("Core", ⟨.named "Core", [⟨.named "Extras", []⟩]⟩) ∈ layered.subtrees :=
    mem_subtreesAll_iff.2 ⟨_, List.mem_cons_self, Or.inl rfl⟩
  have hat := hkept "Foo/Core" (List.mem_singleton_self _) ⟨.named "Core", [⟨.named "Extras", []⟩]⟩
  rw [hpath] at hat
  obtain ⟨hmem, hnested⟩ := hat hcore
  refine ⟨loads_layered _, hrefused _ _ (by rfl) hnope, loads_layered _, hpath, kept, hsub, hmem,
    hnested (by decide) _ (mem_subtreesAll_iff.2 ⟨_, List.mem_cons_self, Or.inl rfl⟩), ?_⟩
  rw [hrun]
  rfl

/-- A subspec with a framework of its own, nested in one without a name. -/
def nameless : Podspec :=
  ⟨.named "Foo", [⟨.named "", [⟨{ Declaration.named "Kit" with
    attributes := { Attributes.empty with frameworks := ["CoreText"] } }, []⟩]⟩]⟩

/-- A request for the empty path is accepted, and nothing nested there comes with it. -/
theorem request_omits_nested : ∃ unnamed kit : Podspec,
    pathOf nameless.name Options.default.separator "" = "" ∧
    nameless.flatten = [("", unnamed.declaration), ("Kit", kit.declaration)] ∧
    ("", unnamed) ∈ nameless.subtrees ∧ ("Kit", kit) ∈ unnamed.nested "" ∧
    kit.declaration.attributes.frameworks = ["CoreText"] ∧
    nameless.select [""] Options.default.separator = [unnamed.declaration] ∧
    (requestFor "").text nameless .default =
      .ok (FrameworkTarget.assemble (.ofOptions .default) nameless.declaration
        [unnamed.declaration] ∅).buildFile.render := by
  refine ⟨_, _, ?_, rfl, List.mem_cons_self, List.mem_cons_self, rfl, ?_, ?_⟩
  · decide +kernel
  · decide +kernel
  · rfl

end PodTarget.Command
