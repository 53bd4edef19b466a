import Mathlib.Data.List.Nodup
import PodTarget.Toml.Tree

/-! The tables that a document comes to if nothing in it is written twice: a table
has the members written under its header, and an array of tables, under a table
around it, one element for each header. -/

namespace PodTarget.Toml

/-- Members written one to a line. -/
def assigned (ms : Members) : List (List String × Value) := ms.map fun m => ([m.1], m.2)

def leaves (ms : Members) : Tree := ms.map fun m => (m.1, .value m.2)

def Section.statements (s : Section) : List Statement :=
  (if s.element then .element s.path else .table s.path) ::
    s.assignments.map fun a => .assign a.1 a.2

theorem sections_assign_append (as : List (List String × Value)) (xs : List Statement) :
    sections ((as.map fun a => Statement.assign a.1 a.2) ++ xs) =
      (as ++ (sections xs).1, (sections xs).2) := by
  induction as with
  | nil => rfl
  | cons a as ih => rw [List.map_cons, List.cons_append, sections, ih]; rfl

theorem sections_flatMap_statements (ss : List Section) :
    sections (ss.flatMap Section.statements) = ([], ss) := by
  induction ss with
  | nil => rfl
  | cons s ss ih =>
    obtain ⟨element, path, as⟩ := s
    rw [List.flatMap_cons, Section.statements, List.cons_append]
    cases element with
    | false =>
      rw [if_neg (by simp), sections, sections_assign_append, ih]
      simp
    | true =>
      rw [if_pos rfl, sections, sections_assign_append, ih]
      simp

/-- One section after the other. -/
def placeAll (ss : List Section) (t : Tree) : Option Tree := ss.foldlM (fun t s => s.place t) t

theorem placeAll_cons (s : Section) (ss : List Section) (t : Tree) :
    placeAll (s :: ss) t = (s.place t).bind (placeAll ss) :=
  List.foldlM_cons

theorem membersOf?_append (as : List (List String × Value)) (ss : List Section) :
    membersOf? ((as.map fun a => Statement.assign a.1 a.2) ++ ss.flatMap Section.statements) =
      ((Tree.assignAll as []).bind (placeAll ss)).map membersOf := by
  rw [membersOf?, sections_assign_append, sections_flatMap_statements, List.append_nil,
    Option.map_bind]
  show (Tree.assignAll as []).bind _ = (Tree.assignAll as []).bind _
  congr 1
  funext t
  exact (Option.map_eq_bind).symm

theorem membersOf_append (t u : Tree) : membersOf (t ++ u) = membersOf t ++ membersOf u := by
  induction t with
  | nil => rfl
  | cons e t ih =>
    obtain ⟨k, n⟩ := e
    rw [List.cons_append, membersOf, membersOf, ih, List.cons_append]

theorem membersOf_leaves (ms : Members) : membersOf (leaves ms) = ms := by
  induction ms with
  | nil => rfl
  | cons m ms ih =>
    rw [leaves, List.map_cons, membersOf, ← leaves, ih]
    rfl

theorem map_fst_leaves (ms : Members) : (leaves ms).map (·.1) = ms.map (·.1) := by
  simp [leaves]

namespace Tree

theorem update_last {k : String} {n : Node} {f : Option Node → Option Node} {t : Tree}
    (h : k ∉ t.map (·.1)) :
    update k f (t ++ [(k, n)]) = (f (some n)).map fun n => t ++ [(k, n)] := by
  induction t with
  | nil => simp [update]
  | cons e t ih =>
    obtain ⟨j, m⟩ := e
    simp only [List.map_cons, List.mem_cons, not_or] at h
    rw [List.cons_append, update, if_neg (Ne.symm h.1), ih h.2]
    cases f (some n) <;> rfl

theorem assignAll_assigned {ms : Members} {t : Tree}
    (h : (t.map (·.1) ++ ms.map (·.1)).Nodup) :
    assignAll (assigned ms) t = some (t ++ leaves ms) := by
  induction ms generalizing t with
  | nil => simp [assignAll, assigned, leaves]
  | cons m ms ih =>
    have hm : m.1 ∉ t.map (·.1) := fun hm => List.disjoint_of_nodup_append h hm List.mem_cons_self
    have hassign : t.assign m.2 [m.1] = some (t ++ [(m.1, .value m.2)]) := by
      rw [assign, update_of_not_mem hm]
      rfl
    have hrest : ((t ++ [(m.1, Node.value m.2)]).map (·.1) ++ ms.map (·.1)).Nodup := by
      simpa using h
    have hfold := ih hrest
    rw [assignAll, assigned] at hfold ⊢
    rw [List.map_cons, List.foldlM_cons, hassign]
    simpa [leaves] using hfold

theorem assignAll_assigned_nil {ms : Members} (h : (ms.map (·.1)).Nodup) :
    assignAll (assigned ms) [] = some (leaves ms) := by
  rw [assignAll_assigned (by simpa using h), List.nil_append]

/-! ### Arrays of tables in a table -/

theorem addElement_last {ms : Members} (h : (ms.map (·.1)).Nodup) {p : String} {u : Tree}
    (hp : p ∉ u.map (·.1)) (ts : List Tree) :
    addElement (assigned ms) p (u ++ [(p, .tables ts)]) =
      some (u ++ [(p, .tables (ts ++ [leaves ms]))]) := by
  rw [addElement, update_last hp]
  simp only [assignAll_assigned_nil h, Option.map_some]

theorem addElement_new {ms : Members} (h : (ms.map (·.1)).Nodup) {p : String} {u : Tree}
    (hp : p ∉ u.map (·.1)) :
    addElement (assigned ms) p u = some (u ++ [(p, .tables [leaves ms])]) := by
  rw [addElement, update_of_not_mem hp]
  simp only [assignAll_assigned_nil h, Option.map_some]

/-- One array after the other, each with its elements in order. -/
def addElements (es : List (String × Members)) (u : Tree) : Option Tree :=
  es.foldlM (fun u e => addElement (assigned e.2) e.1 u) u

/-- The elements of arrays in the order they are written in. -/
def elementsIn (arrays : List (String × List Members)) : List (String × Members) :=
  arrays.flatMap fun a => a.2.map (a.1, ·)

theorem elementsIn_cons (a : String × List Members) (arrays : List (String × List Members)) :
    elementsIn (a :: arrays) = a.2.map (a.1, ·) ++ elementsIn arrays :=
  List.flatMap_cons

theorem addElements_last {p : String} {u : Tree} (hp : p ∉ u.map (·.1)) {mss : List Members}
    (h : ∀ ms ∈ mss, (ms.map (·.1)).Nodup) (ts : List Tree) :
    addElements (mss.map (p, ·)) (u ++ [(p, .tables ts)]) =
      some (u ++ [(p, .tables (ts ++ mss.map leaves))]) := by
  induction mss generalizing ts with
  | nil => simp [addElements]
  | cons ms mss ih =>
    rw [List.forall_mem_cons] at h
    have hrest := ih h.2 (ts ++ [leaves ms])
    rw [addElements] at hrest ⊢
    rw [List.map_cons, List.foldlM_cons, addElement_last h.1 hp]
    simpa using hrest

def arrayLeaves (arrays : List (String × List Members)) : Tree :=
  arrays.map fun a => (a.1, .tables (a.2.map leaves))

theorem addElements_append (es es' : List (String × Members)) (u : Tree) :
    addElements (es ++ es') u = (addElements es u).bind (addElements es') :=
  List.foldlM_append

/-- The elements of arrays, of which each has one at least. -/
theorem addElements_flatMap {arrays : List (String × List Members)} {u : Tree}
    (hkeys : (u.map (·.1) ++ arrays.map (·.1)).Nodup) (hne : ∀ a ∈ arrays, a.2 ≠ [])
    (h : ∀ a ∈ arrays, ∀ ms ∈ a.2, (ms.map (·.1)).Nodup) :
    addElements (elementsIn arrays) u = some (u ++ arrayLeaves arrays) := by
  induction arrays generalizing u with
  | nil => simp [addElements, elementsIn, arrayLeaves]
  | cons a arrays ih =>
    obtain ⟨p, mss⟩ := a
    rw [List.forall_mem_cons] at h hne
    obtain ⟨ms, mss, rfl⟩ := List.exists_cons_of_ne_nil hne.1
    rw [List.forall_mem_cons] at h
    have hp : p ∉ u.map (·.1) := fun hm =>
      List.disjoint_of_nodup_append hkeys hm List.mem_cons_self
    -- the first element makes the array, which then is the last member that the others join
    have hfirst : addElements ((ms :: mss).map (p, ·)) u =
        some (u ++ [(p, .tables ((ms :: mss).map leaves))]) := by
      have hmore := addElements_last hp h.1.2 [leaves ms]
      rw [addElements] at hmore ⊢
      rw [List.map_cons, List.foldlM_cons, addElement_new h.1.1 hp]
      simpa using hmore
    rw [elementsIn_cons, addElements_append, hfirst, Option.bind_some,
      ih (by simpa using hkeys) hne.2 h.2]
    simp [arrayLeaves]

/-! ### Under headers -/

variable {k : String} {t : Tree}

theorem place_table (hk : k ∉ t.map (·.1)) {ms : Members} (h : (ms.map (·.1)).Nodup) :
    Section.place ⟨false, [k], assigned ms⟩ t = some (t ++ [(k, .table .headed (leaves ms))]) := by
  have hlookup : t.lookup k = none := by
    rw [List.lookup_eq_none_iff]
    rintro e he
    simpa using fun hek : k = e.1 => hk (hek ▸ List.mem_map_of_mem he)
  rw [Section.place, if_neg (by simp), follow, addTable, hlookup]
  simp only [assignAll_assigned_nil h, Option.map_some]

/-- The section of one element of an array that is in the table at a key. -/
def elementSection (k : String) (e : String × Members) : Section := ⟨true, [k, e.1], assigned e.2⟩

theorem place_elementSection (hk : k ∉ t.map (·.1)) (e : String × Members) (o : Origin) (u : Tree) :
    (elementSection k e).place (t ++ [(k, .table o u)]) =
      (addElement (assigned e.2) e.1 u).map fun u => t ++ [(k, .table o u)] := by
  rw [Section.place, elementSection, if_pos rfl, follow, update_last hk]
  · simp only [follow, Option.map_map]
    rfl
  · simp

/-- A table that nothing is written of yet comes about with the first element. -/
theorem place_elementSection_new (hk : k ∉ t.map (·.1)) (e : String × Members) :
    (elementSection k e).place t = (elementSection k e).place (t ++ [(k, .table .implied [])]) := by
  rw [place_elementSection hk, Section.place, elementSection, if_pos rfl, follow,
    update_of_not_mem hk]
  · simp only [follow, Option.map_map]
    rfl
  · simp

theorem placeAll_elementSections (hk : k ∉ t.map (·.1)) (es : List (String × Members))
    (o : Origin) (u : Tree) :
    placeAll (es.map (elementSection k)) (t ++ [(k, .table o u)]) =
      (addElements es u).map fun u => t ++ [(k, .table o u)] := by
  induction es generalizing u with
  | nil => rfl
  | cons e es ih =>
    rw [List.map_cons, placeAll_cons, place_elementSection hk, addElements, List.foldlM_cons]
    cases addElement (assigned e.2) e.1 u with
    | none => rfl
    | some u => exact ih u

end Tree

/-! ### A table behind the other members -/

/-- Arrays, each as a member. -/
def arrayMembers (arrays : List (String × List Members)) : Members :=
  arrays.map fun a => (a.1, .tables (a.2.map .table))

theorem elementsOf_map_leaves (mss : List Members) :
    elementsOf (mss.map leaves) = mss.map .table := by
  induction mss with
  | nil => rfl
  | cons ms mss ih => rw [List.map_cons, elementsOf, membersOf_leaves, ih, List.map_cons]

theorem membersOf_arrayLeaves (arrays : List (String × List Members)) :
    membersOf (Tree.arrayLeaves arrays) = arrayMembers arrays := by
  induction arrays with
  | nil => rfl
  | cons a arrays ih =>
    rw [Tree.arrayLeaves, List.map_cons, membersOf, Node.toValue, elementsOf_map_leaves,
      ← Tree.arrayLeaves, ih]
    rfl

section Last

variable {ms : Members} {k : String} (hk : (ms.map (·.1) ++ [k]).Nodup)

include hk

theorem not_mem_leaves : k ∉ (leaves ms).map (·.1) := by
  rw [map_fst_leaves]
  exact fun hm => List.disjoint_of_nodup_append hk hm (List.mem_singleton_self k)

variable {arrays : List (String × List Members)} (hne : ∀ a ∈ arrays, a.2 ≠ [])
  (h : ∀ a ∈ arrays, ∀ ms ∈ a.2, (ms.map (·.1)).Nodup)

include hne h

/-- The table with the members it has so far, and then with its arrays. -/
theorem placeAll_arrays {above : Members} (o : Origin)
    (hkeys : (above.map (·.1) ++ arrays.map (·.1)).Nodup) :
    (placeAll ((Tree.elementsIn arrays).map (Tree.elementSection k))
        (leaves ms ++ [(k, .table o (leaves above))])).map membersOf =
      some (ms ++ [(k, .table (above ++ arrayMembers arrays))]) := by
  have helements := Tree.addElements_flatMap (u := leaves above) (by rwa [map_fst_leaves]) hne h
  rw [Tree.placeAll_elementSections (not_mem_leaves hk), helements]
  simp [membersOf_append, membersOf_leaves, membersOf, Node.toValue, membersOf_arrayLeaves]

/-- The table has a header, and members in front of its arrays. -/
theorem membersOf?_headed {above : Members} (hkeys : (above.map (·.1) ++ arrays.map (·.1)).Nodup) :
    membersOf? (((assigned ms).map fun a => Statement.assign a.1 a.2) ++
        (⟨false, [k], assigned above⟩ :: (Tree.elementsIn arrays).map (Tree.elementSection k)).flatMap
          Section.statements) =
      some (ms ++ [(k, .table (above ++ arrayMembers arrays))]) := by
  rw [membersOf?_append, Tree.assignAll_assigned_nil (List.nodup_append.1 hk).1, Option.bind_some,
    placeAll_cons, Tree.place_table (not_mem_leaves hk) (List.nodup_append.1 hkeys).1,
    Option.bind_some]
  exact placeAll_arrays hk hne h .headed hkeys

/-- The table has no header, which the first element implies. -/
theorem membersOf?_implied (harrays : arrays ≠ []) (hkeys : (arrays.map (·.1)).Nodup) :
    membersOf? (((assigned ms).map fun a => Statement.assign a.1 a.2) ++
        ((Tree.elementsIn arrays).map (Tree.elementSection k)).flatMap Section.statements) =
      some (ms ++ [(k, .table (arrayMembers arrays))]) := by
  obtain ⟨e, es, hes⟩ : ∃ e es, Tree.elementsIn arrays = e :: es := by
    obtain ⟨⟨p, mss⟩, arrays, rfl⟩ := List.exists_cons_of_ne_nil harrays
    obtain ⟨ms, mss, rfl⟩ := List.exists_cons_of_ne_nil (hne _ List.mem_cons_self)
    exact ⟨_, _, rfl⟩
  have hall : (([] : Members).map (·.1) ++ arrays.map (·.1)).Nodup := hkeys
  have hplaced := placeAll_arrays hk hne h .implied hall
  rw [hes, List.map_cons, placeAll_cons] at hplaced
  rw [membersOf?_append, Tree.assignAll_assigned_nil (List.nodup_append.1 hk).1, Option.bind_some,
    hes, List.map_cons, placeAll_cons, Tree.place_elementSection_new (not_mem_leaves hk)]
  exact hplaced

end Last

end PodTarget.Toml
