import PodTarget.Toml.Value

/-! The tables of a document while its lines are put together, as TOML 1.0 has it. A
table is written once: under a header of its own or by paths from the table around
it. The header of a table inside implies those around it, which may still be written
afterwards. So a table is headed, implied by the path of a header, or dotted, where a
value was put at a path through it; an array of tables under headers has one table at
least. -/

namespace PodTarget.Toml

inductive Origin
  | headed
  | implied
  | dotted
deriving DecidableEq, Repr

inductive Node
  | value (v : Value)
  | table (origin : Origin) (members : List (String × Node))
  | tables (elements : List (List (String × Node)))

abbrev Tree := List (String × Node)

mutual

def Node.toValue : Node → Value
  | .value v => v
  | .table _ t => .table (membersOf t)
  | .tables ts => .tables (elementsOf ts)

def membersOf : List (String × Node) → Members
  | [] => []
  | (k, n) :: t => (k, n.toValue) :: membersOf t

def elementsOf : List (List (String × Node)) → List Value
  | [] => []
  | t :: ts => .table (membersOf t) :: elementsOf ts

end

namespace Tree

/-- Changes what is at a key, which comes last if it is new. -/
def update (k : String) (f : Option Node → Option Node) : Tree → Option Tree
  | [] => (f none).map fun n => [(k, n)]
  | (j, n) :: t =>
    if j = k then (f (some n)).map fun n => (j, n) :: t else (update k f t).map ((j, n) :: ·)

theorem update_of_not_mem {k : String} {f : Option Node → Option Node} {t : Tree}
    (h : k ∉ t.map (·.1)) : update k f t = (f none).map fun n => t ++ [(k, n)] := by
  induction t with
  | nil => rfl
  | cons a t ih =>
    obtain ⟨j, m⟩ := a
    simp only [List.map_cons, List.mem_cons, not_or] at h
    rw [update, if_neg (Ne.symm h.1), ih h.2]
    cases f none <;> rfl

def updateLast (f : Tree → Option Tree) : List Tree → Option (List Tree)
  | [] => none
  | [t] => (f t).map ([·])
  | t :: ts => (updateLast f ts).map (t :: ·)

/-- Puts a new value at a path. Tables with a header cannot be entered, and only
those that have come about in the same way get new values. -/
def assign (v : Value) : List String → Tree → Option Tree
  | [], _ => none
  | k :: ks, t => t.update k fun
    | none => if ks = [] then some (.value v) else (assign v ks []).map (.table .dotted)
    | some (.table origin u) =>
      if origin = .headed ∨ origin = .implied ∧ ks.length = 1 then none
      else (assign v ks u).map (.table origin)
    | some (.tables ts) =>
      if ks.length = 1 then none else (updateLast (assign v ks) ts).map .tables
    | some (.value _) => none

def assignAll (as : List (List String × Value)) (t : Tree) : Option Tree :=
  as.foldlM (fun t a => t.assign a.2 a.1) t

/-- Follows the path of a header up to its last key. -/
def follow (f : String → Tree → Option Tree) : List String → Tree → Option Tree
  | [], _ => none
  | [k], t => f k t
  | k :: ks, t => t.update k fun
    | none => (follow f ks []).map (.table .implied)
    | some (.table origin u) => (follow f ks u).map (.table origin)
    | some (.tables ts) => (updateLast (follow f ks) ts).map .tables
    | some (.value _) => none

/-- Writes a table under its header. It may be implied but not written before,
and comes last. -/
def addTable (as : List (List String × Value)) (k : String) (t : Tree) : Option Tree :=
  match t.lookup k with
  | none => (assignAll as []).map fun u => t ++ [(k, .table .headed u)]
  | some (.table .implied u) =>
    (assignAll as u).map fun u => t.filter (·.1 ≠ k) ++ [(k, .table .headed u)]
  | some _ => none

def addElement (as : List (List String × Value)) (k : String) (t : Tree) : Option Tree :=
  t.update k fun
    | none => (assignAll as []).map fun u => .tables [u]
    | some (.tables ts) => (assignAll as []).map fun u => .tables (ts ++ [u])
    | some _ => none

end Tree

structure Section where
  element : Bool
  path : List String
  assignments : List (List String × Value)

def Section.place (s : Section) (t : Tree) : Option Tree :=
  t.follow (if s.element then Tree.addElement s.assignments else Tree.addTable s.assignments) s.path

/-- What is written in front of the first header, and the sections after it. -/
def sections : List Statement → List (List String × Value) × List Section
  | [] => ([], [])
  | .assign path v :: rest =>
    let (as, ss) := sections rest
    ((path, v) :: as, ss)
  | .table path :: rest =>
    let (as, ss) := sections rest
    ([], ⟨false, path, as⟩ :: ss)
  | .element path :: rest =>
    let (as, ss) := sections rest
    ([], ⟨true, path, as⟩ :: ss)

/-- The members of a document, unless something is written twice. -/
def membersOf? (statements : List Statement) : Option Members := do
  let (as, ss) := sections statements
  let t ← ss.foldlM (fun t s => s.place t) (← Tree.assignAll as [])
  return membersOf t

def tableOf? (as : List (List String × Value)) : Option Value :=
  (Tree.assignAll as []).map fun t => .table (membersOf t)

end PodTarget.Toml
