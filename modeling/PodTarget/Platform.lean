/-! The Apple platforms a pod can declare, and values given for each of them. -/

namespace PodTarget

inductive Platform
  | ios
  | osx
  | tvos
  | watchos
deriving DecidableEq, Repr

namespace Platform

def all : List Platform := [ios, osx, tvos, watchos]

theorem mem_all (p : Platform) : p ∈ all := by cases p <;> decide

/-- The platform whose values end up in the emitted target. -/
def primary : Platform := ios

def id : Platform → String
  | ios => "ios"
  | osx => "osx"
  | tvos => "tvos"
  | watchos => "watchos"

def ofId? (s : String) : Option Platform := all.find? (·.id = s)

theorem ofId?_id (p : Platform) : ofId? p.id = some p := by cases p <;> decide

/-- A podspec may also call `osx` by the name `macos`. -/
def ofName? (s : String) : Option Platform := if s = "macos" then some osx else ofId? s

theorem ofName?_id (p : Platform) : ofName? p.id = some p := by cases p <;> decide

def unknownMessage (name : String) : String := "unknown platform: '" ++ name ++ "'"

end Platform

structure PerPlatform (α : Type) where
  ios : α
  osx : α
  tvos : α
  watchos : α
deriving DecidableEq, Repr

namespace PerPlatform

variable {α β : Type}

def get (v : PerPlatform α) : Platform → α
  | .ios => v.ios
  | .osx => v.osx
  | .tvos => v.tvos
  | .watchos => v.watchos

def ofFn (f : Platform → α) : PerPlatform α := ⟨f .ios, f .osx, f .tvos, f .watchos⟩

@[simp] theorem get_ofFn (f : Platform → α) (p : Platform) : (ofFn f).get p = f p := by
  cases p <;> rfl

theorem ext_get {a b : PerPlatform α} (h : ∀ p, a.get p = b.get p) : a = b := by
  obtain ⟨a1, a2, a3, a4⟩ := a
  obtain ⟨b1, b2, b3, b4⟩ := b
  have h1 := h .ios
  have h2 := h .osx
  have h3 := h .tvos
  have h4 := h .watchos
  simp only [get] at h1 h2 h3 h4
  simp [h1, h2, h3, h4]

def set (v : PerPlatform α) (p : Platform) (a : α) : PerPlatform α :=
  ofFn fun q => if q = p then a else v.get q

@[simp] theorem get_set (v : PerPlatform α) (p q : Platform) (a : α) :
    (v.set p a).get q = if q = p then a else v.get q := by
  simp [set]

def map (f : α → β) (v : PerPlatform α) : PerPlatform β := ofFn fun p => f (v.get p)

@[simp] theorem get_map (f : α → β) (v : PerPlatform α) (p : Platform) :
    (v.map f).get p = f (v.get p) := by
  simp [map]

def none : PerPlatform (Option α) := ⟨.none, .none, .none, .none⟩

@[simp] theorem get_none (p : Platform) : (none : PerPlatform (Option α)).get p = .none := by
  cases p <;> rfl

/-- The values that are there, in the order of the platforms. -/
def entries (v : PerPlatform (Option α)) : List (Platform × α) :=
  Platform.all.filterMap fun p => (v.get p).map (p, ·)

theorem mem_entries {v : PerPlatform (Option α)} {p : Platform} {a : α} :
    (p, a) ∈ v.entries ↔ v.get p = some a := by
  simp [entries, Platform.mem_all]

end PerPlatform

end PodTarget
