import PodTarget.Json.Document

/-! How deep the arrays and objects of a document are nested, and whether
everything in it has a value. A document is sound in some room if and only if it
has values throughout and is nested no deeper than that. -/

namespace PodTarget.Json.Document

mutual

def depth : Document → Nat
  | .array items => allDepth items + 1
  | .object members => membersDepth members + 1
  | _ => 0

def allDepth : List Document → Nat
  | [] => 0
  | d :: ds => max d.depth (allDepth ds)

def membersDepth : List (Option String × Document) → Nat
  | [] => 0
  | (_, d) :: ms => max d.depth (membersDepth ms)

end

mutual

/-- Every key, number and string in the document has a value. -/
def valued : Document → Bool
  | .array items => allValued items
  | .object members => membersValued members
  | .valueless | .torn => false
  | _ => true

def allValued : List Document → Bool
  | [] => true
  | d :: ds => d.valued && allValued ds

def membersValued : List (Option String × Document) → Bool
  | [] => true
  | (k, d) :: ms => k.isSome && d.valued && membersValued ms

end

section Lists

variable {n : Nat} {ds : List Document} {ms : List (Option String × Document)}

theorem allDepth_le_iff : allDepth ds ≤ n ↔ ∀ d ∈ ds, d.depth ≤ n := by
  induction ds with
  | nil => simp [allDepth]
  | cons d ds ih => rw [allDepth, Nat.max_le, ih, List.forall_mem_cons]

theorem membersDepth_le_iff : membersDepth ms ≤ n ↔ ∀ m ∈ ms, m.2.depth ≤ n := by
  induction ms with
  | nil => simp [membersDepth]
  | cons m ms ih => rw [membersDepth, Nat.max_le, ih, List.forall_mem_cons]

theorem allValued_iff : allValued ds = true ↔ ∀ d ∈ ds, d.valued = true := by
  induction ds with
  | nil => simp [allValued]
  | cons d ds ih => rw [allValued, Bool.and_eq_true, ih, List.forall_mem_cons]

theorem membersValued_iff :
    membersValued ms = true ↔ ∀ m ∈ ms, m.1.isSome = true ∧ m.2.valued = true := by
  induction ms with
  | nil => simp [membersValued]
  | cons m ms ih => rw [membersValued, Bool.and_eq_true, Bool.and_eq_true, ih, List.forall_mem_cons]

theorem allWhole_iff : allWhole ds = true ↔ ∀ d ∈ ds, d.whole = true := by
  induction ds with
  | nil => simp [allWhole]
  | cons d ds ih => rw [allWhole, Bool.and_eq_true, ih, List.forall_mem_cons]

theorem membersWhole_iff : membersWhole ms = true ↔ ∀ m ∈ ms, m.2.whole = true := by
  induction ms with
  | nil => simp [membersWhole]
  | cons m ms ih => rw [membersWhole, Bool.and_eq_true, ih, List.forall_mem_cons]

theorem depth_array_le_iff : (array ds).depth ≤ n + 1 ↔ ∀ d ∈ ds, d.depth ≤ n := by
  rw [depth, Nat.add_le_add_iff_right, allDepth_le_iff]

theorem depth_object_le_iff : (object ms).depth ≤ n + 1 ↔ ∀ m ∈ ms, m.2.depth ≤ n := by
  rw [depth, Nat.add_le_add_iff_right, membersDepth_le_iff]

theorem lt_depth_array_iff : n + 1 < (array ds).depth ↔ ∃ d ∈ ds, n < d.depth := by
  rw [← Nat.not_le, depth_array_le_iff]
  simp

theorem lt_depth_object_iff : n + 1 < (object ms).depth ↔ ∃ m ∈ ms, n < m.2.depth := by
  rw [← Nat.not_le, depth_object_le_iff]
  simp

theorem valued_array_iff : (array ds).valued = true ↔ ∀ d ∈ ds, d.valued = true := by
  rw [valued, allValued_iff]

theorem valued_object_iff :
    (object ms).valued = true ↔ ∀ m ∈ ms, m.1.isSome = true ∧ m.2.valued = true := by
  rw [valued, membersValued_iff]

theorem whole_array_iff : (array ds).whole = true ↔ ∀ d ∈ ds, d.whole = true := by
  rw [whole, allWhole_iff]

theorem whole_object_iff : (object ms).whole = true ↔ ∀ m ∈ ms, m.2.whole = true := by
  rw [whole, membersWhole_iff]

end Lists

mutual

theorem sound_iff : ∀ (d : Document) (room : Nat),
    d.sound room = true ↔ d.valued = true ∧ d.depth ≤ room
  | .null, _ | .boolean _, _ | .number _, _ | .string _, _ | .valueless, _ | .torn, _ => by
    simp [sound, valued, depth]
  | .array _, 0 | .object _, 0 => by simp [sound, depth]
  | .array ds, room + 1 => by
    rw [sound, valued, depth, Nat.add_le_add_iff_right, allSound_iff ds room]
  | .object ms, room + 1 => by
    rw [sound, valued, depth, Nat.add_le_add_iff_right, membersSound_iff ms room]

theorem allSound_iff : ∀ (ds : List Document) (room : Nat),
    allSound ds room = true ↔ allValued ds = true ∧ allDepth ds ≤ room
  | [], _ => by simp [allSound, allValued, allDepth]
  | d :: ds, room => by
    rw [allSound, allValued, allDepth, Bool.and_eq_true, Bool.and_eq_true, Nat.max_le,
      sound_iff d room, allSound_iff ds room, and_and_and_comm]

theorem membersSound_iff : ∀ (ms : List (Option String × Document)) (room : Nat),
    membersSound ms room = true ↔ membersValued ms = true ∧ membersDepth ms ≤ room
  | [], _ => by simp [membersSound, membersValued, membersDepth]
  | (k, d) :: ms, room => by
    rw [membersSound, membersValued, membersDepth, Bool.and_eq_true, Bool.and_eq_true,
      Bool.and_eq_true, Bool.and_eq_true, Nat.max_le, sound_iff d room, membersSound_iff ms room]
    constructor
    · rintro ⟨⟨hk, hv, hd⟩, hvs, hds⟩
      exact ⟨⟨⟨hk, hv⟩, hvs⟩, hd, hds⟩
    · rintro ⟨⟨⟨hk, hv⟩, hvs⟩, hd, hds⟩
      exact ⟨⟨hk, hv, hd⟩, hvs, hds⟩

end

mutual

theorem whole_of_valued : ∀ d : Document, d.valued = true → d.whole = true
  | .null, _ | .boolean _, _ | .number _, _ | .string _, _ => rfl
  | .valueless, h | .torn, h => by simp [valued] at h
  | .array ds, h => by
    rw [valued] at h
    rw [whole]
    exact allWhole_of_allValued ds h
  | .object ms, h => by
    rw [valued] at h
    rw [whole]
    exact membersWhole_of_membersValued ms h

theorem allWhole_of_allValued : ∀ ds : List Document, allValued ds = true → allWhole ds = true
  | [], _ => rfl
  | d :: ds, h => by
    rw [allValued, Bool.and_eq_true] at h
    rw [allWhole, whole_of_valued d h.1, allWhole_of_allValued ds h.2, Bool.and_self]

theorem membersWhole_of_membersValued :
    ∀ ms : List (Option String × Document), membersValued ms = true → membersWhole ms = true
  | [], _ => rfl
  | (_, d) :: ms, h => by
    rw [membersValued, Bool.and_eq_true, Bool.and_eq_true] at h
    rw [membersWhole, whole_of_valued d h.1.2, membersWhole_of_membersValued ms h.2, Bool.and_self]

end

end PodTarget.Json.Document
