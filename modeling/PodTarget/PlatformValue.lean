import PodTarget.Merge
import PodTarget.Platform

/-! A value with a default and, for some platforms, a value of their own. A
platform without one has the default. -/

namespace PodTarget

structure PlatformValue (α : Type) where
  default : α
  overrides : PerPlatform (Option α)
deriving DecidableEq, Repr

namespace PlatformValue

variable {α β γ : Type}

def uniform (a : α) : PlatformValue α := ⟨a, .none⟩

/-- The value in effect for a platform. -/
def get (v : PlatformValue α) (p : Platform) : α := (v.overrides.get p).getD v.default

def primary (v : PlatformValue α) : α := v.get .primary

def isUniform (v : PlatformValue α) : Bool := v.overrides.entries.isEmpty

def withOverride (v : PlatformValue α) (p : Platform) (a : α) : PlatformValue α :=
  { v with overrides := v.overrides.set p (some a) }

theorem get_uniform (a : α) (p : Platform) : (uniform a).get p = a := by simp [uniform, get]

/-- Two values are the same if they have the same default, own values for the
same platforms, and the same in effect for every platform. -/
theorem ext_get {a b : PlatformValue α} (hd : a.default = b.default)
    (ho : ∀ p, (a.overrides.get p).isSome = (b.overrides.get p).isSome)
    (hg : ∀ p, a.get p = b.get p) : a = b := by
  obtain ⟨d, o⟩ := a
  obtain ⟨e, o'⟩ := b
  obtain rfl : d = e := hd
  congr 1
  refine PerPlatform.ext_get fun p => ?_
  have hop := ho p
  have hgp := hg p
  simp only [get] at hop hgp
  cases hp : o.get p <;> cases hp' : o'.get p <;> simp_all

/-- Applies `f` to the default, which belongs to no platform, and to each
platform's own value. -/
def mapSlots (f : Option Platform → α → β) (v : PlatformValue α) : PlatformValue β :=
  ⟨f none v.default, .ofFn fun p => (v.overrides.get p).map (f (some p))⟩

/-- What is in effect for a platform is treated as its own value where it has one,
as the default elsewhere. -/
theorem get_mapSlots_eq (f : Option Platform → α → β) (v : PlatformValue α) (p : Platform) :
    (v.mapSlots f).get p =
      f (if (v.overrides.get p).isSome then some p else none) (v.get p) := by
  simp only [mapSlots, get, PerPlatform.get_ofFn]
  cases v.overrides.get p <;> rfl

/-- Where the default is treated like the values of a platform, so is what is in
effect there. -/
theorem get_mapSlots {f : Option Platform → α → β} {p : Platform} (h : f none = f (some p))
    (v : PlatformValue α) : (v.mapSlots f).get p = f (some p) (v.get p) := by
  rw [get_mapSlots_eq]
  split
  · rfl
  · rw [h]

def map (f : α → β) : PlatformValue α → PlatformValue β := mapSlots fun _ => f

theorem get_map (f : α → β) (v : PlatformValue α) (p : Platform) :
    (v.map f).get p = f (v.get p) := get_mapSlots rfl v

/-- Combines the defaults and, for every platform with a value of its own on
either side, the two values in effect there. -/
def zipWith (f : α → β → γ) (a : PlatformValue α) (b : PlatformValue β) : PlatformValue γ where
  default := f a.default b.default
  overrides := .ofFn fun p =>
    if (a.overrides.get p).isSome || (b.overrides.get p).isSome then some (f (a.get p) (b.get p))
    else none

theorem get_zipWith (f : α → β → γ) (a : PlatformValue α) (b : PlatformValue β) (p : Platform) :
    (zipWith f a b).get p = f (a.get p) (b.get p) := by
  simp only [zipWith, get, PerPlatform.get_ofFn]
  cases a.overrides.get p <;> cases b.overrides.get p <;> simp

theorem isSome_overrides_zipWith (f : α → β → γ) (a : PlatformValue α) (b : PlatformValue β)
    (p : Platform) : ((zipWith f a b).overrides.get p).isSome =
      ((a.overrides.get p).isSome || (b.overrides.get p).isSome) := by
  rw [zipWith, PerPlatform.get_ofFn]
  split <;> simp_all

def zip : PlatformValue α → PlatformValue β → PlatformValue (α × β) := zipWith Prod.mk

instance [Merge α] : Merge (PlatformValue α) := ⟨zipWith merge⟩

theorem get_merge [Merge α] (a b : PlatformValue α) (p : Platform) :
    (merge a b).get p = merge (a.get p) (b.get p) := get_zipWith ..

theorem default_merge [Merge α] (a b : PlatformValue α) :
    (merge a b).default = merge a.default b.default := rfl

theorem isSome_overrides_merge [Merge α] (a b : PlatformValue α) (p : Platform) :
    ((merge a b).overrides.get p).isSome =
      ((a.overrides.get p).isSome || (b.overrides.get p).isSome) :=
  isSome_overrides_zipWith ..

def unpack (v : PlatformValue α) (ps : List Platform) : PerPlatform (Option α) :=
  .ofFn fun p => if p ∈ ps then some (v.get p) else none

/-- The same value, with every platform's written out. -/
def spread (v : PlatformValue α) : PlatformValue α := ⟨v.default, v.unpack Platform.all⟩

theorem get_spread (v : PlatformValue α) (p : Platform) : v.spread.get p = v.get p := by
  simp [spread, unpack, get, Platform.mem_all]

end PlatformValue

end PodTarget
