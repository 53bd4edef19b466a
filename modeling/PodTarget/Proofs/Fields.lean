import PodTarget.Podspec.Schema

/-! The fields of a spec one by one: what each of them holds, how its value is
decoded, and where it is kept. Which value a field is given in a list of members
does not depend on the other members, as long as no field is given twice. -/

namespace PodTarget

open Json

theorem map_map {α β γ : Type} (f : α → β) (g : β → γ) (x : Except Error α) :
    (x.map f).map g = x.map fun a => g (f a) := by
  cases x <;> rfl

/-! ### Attributes -/

theorem ListAttribute.get_set_of_ne {x y : ListAttribute} (h : x ≠ y) (l : List String)
    (s : Attributes) : y.get (x.set l s) = y.get s := by
  cases x <;> cases y <;> first | rfl | exact absurd rfl h

namespace Attribute

/-- What an attribute holds. -/
abbrev Value : Attribute → Type
  | list _ => List String
  | resourceBundles => StringMap (List String)
  | xcconfig => StringMap String
  | swiftVersions => Option (List String)
  | moduleName => Option String

def decoder : (a : Attribute) → Decoder a.Value
  | list .dependencies => fun room d => (Decoder.optional Decoder.names room d).map (·.getD [])
  | list _ => stringList
  | resourceBundles => fun room d =>
    (Decoder.optional (Decoder.map Decoder.oneOrMany) room d).map (·.getD ∅)
  | xcconfig => Decoder.map Decoder.string
  | swiftVersions => Decoder.optional Decoder.oneOrMany
  | moduleName => Decoder.optional Decoder.string

def get : (a : Attribute) → Attributes → a.Value
  | list l => l.get
  | resourceBundles => (·.resourceBundles)
  | xcconfig => (·.xcconfig)
  | swiftVersions => (·.swiftVersions)
  | moduleName => (·.moduleName)

def put : (a : Attribute) → a.Value → Attributes → Attributes
  | list l, v => l.set v
  | resourceBundles, v => ({ · with resourceBundles := v })
  | xcconfig, v => ({ · with xcconfig := v })
  | swiftVersions, v => ({ · with swiftVersions := v })
  | moduleName, v => ({ · with moduleName := v })

theorem decode_eq (a : Attribute) (room : Nat) (d : Document) :
    a.decode room d = (a.decoder room d).map a.put := by
  cases a with
  | list l =>
    cases l with
    | dependencies => rw [decoder, map_map]; rfl
    | _ => rfl
  | resourceBundles => rw [decoder, map_map]; rfl
  | _ => rfl

theorem get_put_self (a : Attribute) (v : a.Value) (s : Attributes) : a.get (a.put v s) = v := by
  cases a with
  | list l => exact l.get_set v s
  | _ => rfl

theorem get_put_of_ne {a b : Attribute} (h : a ≠ b) (v : a.Value) (s : Attributes) :
    b.get (a.put v s) = b.get s := by
  cases a with
  | list l =>
    cases b with
    | list l' => exact ListAttribute.get_set_of_ne (fun hl => h (congrArg list hl)) v s
    | _ => cases l <;> rfl
  | _ =>
    cases b with
    | list l => cases l <;> rfl
    | _ => first | rfl | exact absurd rfl h

end Attribute

namespace Attributes

theorem ext_get {s t : Attributes} (h : ∀ a : Attribute, a.get s = a.get t) : s = t := by
  have hlist (l : ListAttribute) : l.get s = l.get t := h (.list l)
  obtain ⟨⟩ := s
  obtain ⟨⟩ := t
  congr 1
  · exact hlist .sourceFiles
  · exact hlist .excludeFiles
  · exact hlist .publicHeaderFiles
  · exact hlist .privateHeaderFiles
  · exact hlist .resources
  · exact h .resourceBundles
  · exact hlist .dependencies
  · exact hlist .vendoredFrameworks
  · exact hlist .vendoredLibraries
  · exact hlist .frameworks
  · exact hlist .weakFrameworks
  · exact hlist .libraries
  · exact hlist .compilerFlags
  · exact h .xcconfig
  · exact h .swiftVersions
  · exact h .moduleName

/-- The attributes with the given values. -/
def ofValues (v : (a : Attribute) → a.Value) : Attributes :=
  Attribute.all.foldl (fun s a => a.put (v a) s) .empty

theorem get_ofValues (v : (a : Attribute) → a.Value) (a : Attribute) :
    a.get (ofValues v) = v a := by
  cases a with
  | list l => cases l <;> rfl
  | _ => rfl

end Attributes

/-! ### Properties -/

namespace Property

/-- What a property holds. -/
abbrev Value : Property → Type
  | name => String
  | version => Option String
  | platforms => PerPlatform (Option String)
  | staticFramework => Bool
  | defaultSubspecs => List String
  | platformSection _ => Option Attributes
  | subspecs => List Podspec

def decoder : (p : Property) → Decoder p.Value
  | name => Decoder.string
  | version => Decoder.optional Decoder.string
  | platforms => fun room d =>
    (Decoder.optional (Decoder.map (Decoder.optional Decoder.string)) room d).map fun v =>
      platformVersions (v.getD ∅)
  | staticFramework => Decoder.boolean
  | defaultSubspecs => stringList
  | platformSection _ => Decoder.optional Attributes.decode
  | subspecs => fun room d => Podspec.decodeSubspecs d room

def get : (p : Property) → Podspec → p.Value
  | name => (·.declaration.name)
  | version => (·.declaration.version)
  | platforms => (·.declaration.platforms)
  | staticFramework => (·.declaration.staticFramework)
  | defaultSubspecs => (·.declaration.defaultSubspecs)
  | platformSection q => (·.declaration.sections.get q)
  | subspecs => (·.subspecs)

end Property

theorem Podspec.ext_get {s t : Podspec} (h : ∀ p : Property, p.get s = p.get t)
    (ha : s.declaration.attributes = t.declaration.attributes) : s = t := by
  have hsections : s.declaration.sections = t.declaration.sections :=
    PerPlatform.ext_get fun q => h (.platformSection q)
  obtain ⟨⟨⟩, _⟩ := s
  obtain ⟨⟨⟩, _⟩ := t
  congr 1
  · congr 1
    · exact h .name
    · exact h .version
    · exact h .platforms
    · exact h .staticFramework
    · exact h .defaultSubspecs
  · exact h .subspecs

namespace Draft

/-- What a spec is so far. It has no name yet where none was read, and no
attributes. -/
def spec (f : Draft) : Podspec := ⟨{ f.declaration with name := f.name.getD "" }, f.subspecs⟩

def put (f : Draft) : (p : Property) → p.Value → Draft
  | .name, v => { f with name := some v }
  | .version, v => f.update ({ · with version := v })
  | .platforms, v => f.update ({ · with platforms := v })
  | .staticFramework, v => f.update ({ · with staticFramework := v })
  | .defaultSubspecs, v => f.update ({ · with defaultSubspecs := v })
  | .platformSection q, v => f.update fun s => { s with sections := s.sections.set q v }
  | .subspecs, v => { f with subspecs := v }

variable (f : Draft) {p : Property} (v : p.Value)

theorem seen_put : (f.put p v).seen = f.seen := by cases p <;> rfl

theorem aside_put : (f.put p v).aside = f.aside := by cases p <;> rfl

theorem isSome_name_put :
    (f.put p v).name.isSome = true ↔ f.name.isSome = true ∨ p = .name := by
  cases p <;> simp [put, update]

theorem get_put_self : p.get (f.put p v).spec = v := by
  cases p with
  | platformSection q => simp [Property.get, put, update, spec]
  | _ => rfl

theorem get_put_of_ne {q : Property} (h : p ≠ q) : q.get (f.put p v).spec = q.get f.spec := by
  cases p with
  | platformSection r =>
    cases q with
    | platformSection q =>
      have hq : q ≠ r := fun hr => h (by rw [hr])
      simp [Property.get, put, update, spec, hq]
    | _ => rfl
  | _ =>
    cases q with
    | _ => first | rfl | exact absurd rfl h

theorem readProperty_eq (hp : p ≠ .subspecs) (room : Nat) (d : Document) :
    f.readProperty room p d = (p.decoder room d).map (f.put p) := by
  cases p with
  | subspecs => exact absurd rfl hp
  | platforms => rw [Property.decoder, map_map]; rfl
  | _ => rfl

theorem finish_eq_ok_iff {room : Nat} {s : Podspec} : f.finish room = .ok s ↔
    f.name.isSome = true ∧ (∀ p : Property, p.get s = p.get f.spec) ∧
      Attributes.decodeAll room f.aside.reverse [] .empty = .ok s.declaration.attributes := by
  have get_spec (n : String) (a : Attributes) (hn : f.name = some n) (p : Property) :
      p.get ⟨{ f.declaration with name := n, attributes := a }, f.subspecs⟩ = p.get f.spec := by
    cases p with
    | name => simp [Property.get, spec, hn]
    | _ => rfl
  cases hname : f.name with
  | none => simp [finish, hname]
  | some n =>
    cases hall : Attributes.decodeAll room f.aside.reverse [] .empty with
    | error e => simp [finish, hname, hall, bind, Except.bind]
    | ok a =>
      simp only [finish, hname, hall, bind, Except.bind, pure, Except.pure, Except.ok.injEq,
        Option.isSome_some, true_and]
      constructor
      · rintro rfl
        exact ⟨get_spec n a hname, rfl⟩
      · rintro ⟨hget, rfl⟩
        exact Podspec.ext_get (fun p => (get_spec n _ hname p).trans (hget p).symm) rfl

end Draft

end PodTarget
