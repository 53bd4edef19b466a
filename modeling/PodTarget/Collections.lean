import Std.Data.ExtTreeMap
import Std.Data.ExtTreeSet

/-! Sets and maps keyed by text, in the order of code points. They are
extensional: two sets with the same members are equal, and so are two maps
with the same values at the same keys. What a fold over a map does at one key
only depends on the entry there. -/

namespace PodTarget

abbrev StringSet := Std.ExtTreeSet String

abbrev StringMap (α : Type) := Std.ExtTreeMap String α

/-- The members that satisfy `p`. -/
def StringSet.where (s : StringSet) (p : String → Bool) : StringSet := s.filter p

theorem StringSet.mem_where {s : StringSet} {p : String → Bool} {x : String} :
    x ∈ s.where p ↔ x ∈ s ∧ p x = true := by
  simp [StringSet.where, Std.ExtTreeSet.mem_filter]

/-- The union of the images of the members. -/
def StringSet.bind (s : StringSet) (f : String → List String) : StringSet :=
  .ofList (s.toList.flatMap f)

theorem StringSet.mem_bind {s : StringSet} {f : String → List String} {y : String} :
    y ∈ s.bind f ↔ ∃ x ∈ s, y ∈ f x := by
  simp [StringSet.bind]

theorem StringSet.nodup_toList (s : StringSet) : s.toList.Nodup :=
  s.distinct_toList.imp fun h => by simpa using h

section Keyed

variable {α β : Type}

/-- The values in the order of their keys, the first of those with one key. -/
def sortedBy (key : α → String) (items : List α) : List α :=
  (items.foldl (fun (m : StringMap α) a => m.insertIfNew (key a) a) ∅).toList.map (·.2)

/-- Of the items with one key the first is kept. -/
theorem getElem?_foldl_insertIfNew (key : α → String) (items : List α) (m : StringMap α)
    (k : String) :
    (items.foldl (fun (m : StringMap α) a => m.insertIfNew (key a) a) m)[k]? =
      m[k]?.or (items.find? fun a => key a = k) := by
  induction items generalizing m with
  | nil => simp
  | cons a items ih =>
    rw [List.foldl_cons, ih, Std.ExtTreeMap.getElem?_insertIfNew]
    by_cases ha : key a = k
    · subst ha
      by_cases hm : key a ∈ m <;> simp [hm]
    · simp [ha]

theorem mem_toList_foldl_insertIfNew {key : α → String} {items : List α} {k : String} {a : α} :
    (k, a) ∈ (items.foldl (fun (m : StringMap α) a => m.insertIfNew (key a) a) ∅).toList ↔
      items.find? (fun b => key b = k) = some a := by
  rw [Std.ExtTreeMap.mem_toList_iff_getElem?_eq_some, getElem?_foldl_insertIfNew,
    Std.ExtTreeMap.getElem?_empty, Option.none_or]

theorem key_eq_of_mem_toList {key : α → String} {items : List α} {e : String × α}
    (h : e ∈ (items.foldl (fun (m : StringMap α) a => m.insertIfNew (key a) a) ∅).toList) :
    key e.2 = e.1 := by
  simpa using List.find?_some (mem_toList_foldl_insertIfNew.1 h)

theorem exists_find?_key (key : α → String) {items : List α} {a : α} (h : a ∈ items) :
    ∃ b, items.find? (fun c => key c = key a) = some b ∧ key b = key a := by
  obtain ⟨b, hb⟩ : ∃ b, items.find? (fun c => key c = key a) = some b :=
    Option.isSome_iff_exists.1 (List.find?_isSome.2 ⟨a, h, by simp⟩)
  exact ⟨b, hb, by simpa using List.find?_some hb⟩

theorem mem_sortedBy_iff {key : α → String} {items : List α} {a : α} :
    a ∈ sortedBy key items ↔ items.find? (fun b => key b = key a) = some a := by
  rw [sortedBy, List.mem_map]
  constructor
  · rintro ⟨e, he, rfl⟩
    rw [key_eq_of_mem_toList he]
    exact mem_toList_foldl_insertIfNew.1 he
  · exact fun h => ⟨(key a, a), mem_toList_foldl_insertIfNew.2 h, rfl⟩

theorem mem_of_mem_sortedBy {key : α → String} {items : List α} {a : α}
    (h : a ∈ sortedBy key items) : a ∈ items :=
  List.mem_of_find?_eq_some (mem_sortedBy_iff.1 h)

/-- For every key of an item there is one item. -/
theorem exists_mem_sortedBy {key : α → String} {items : List α} {a : α} (h : a ∈ items) :
    ∃ b ∈ sortedBy key items, key b = key a := by
  obtain ⟨b, hb, hkey⟩ := exists_find?_key key h
  exact ⟨b, mem_sortedBy_iff.2 (hkey ▸ hb), hkey⟩

/-- The keys are in order, and none of them comes twice. -/
theorem pairwise_sortedBy (key : α → String) (items : List α) :
    (sortedBy key items).Pairwise fun a b => key a < key b := by
  rw [sortedBy, List.pairwise_map]
  refine Std.ExtTreeMap.ordered_keys_toList.imp_of_mem fun {e f} he hf hlt => ?_
  rw [key_eq_of_mem_toList he, key_eq_of_mem_toList hf]
  exact compareOfLessAndEq_eq_lt.1 hlt

theorem nodup_sortedBy (key : α → String) (items : List α) : (sortedBy key items).Nodup := by
  apply (pairwise_sortedBy key items).imp
  rintro a b hlt rfl
  exact String.lt_irrefl _ hlt

theorem find?_key_eq_some_iff {key : α → String} {items : List α}
    (hkey : ∀ a ∈ items, ∀ b ∈ items, key a = key b → a = b) {k : String} {a : α} :
    items.find? (fun a => key a = k) = some a ↔ a ∈ items ∧ key a = k := by
  constructor
  · exact fun h => ⟨List.mem_of_find?_eq_some h, by simpa using List.find?_some h⟩
  · rintro ⟨ha, rfl⟩
    obtain ⟨b, hb, hsame⟩ := exists_find?_key key ha
    rw [hb, hkey b (List.mem_of_find?_eq_some hb) a ha hsame]

/-- Order and repetition do not count where items with one key are the same item. -/
theorem sortedBy_congr {key : α → String} {items items' : List α}
    (hkey : ∀ a ∈ items, ∀ b ∈ items, key a = key b → a = b) (h : ∀ a, a ∈ items ↔ a ∈ items') :
    sortedBy key items = sortedBy key items' := by
  have hkey' : ∀ a ∈ items', ∀ b ∈ items', key a = key b → a = b :=
    fun a ha b hb => hkey a ((h a).2 ha) b ((h b).2 hb)
  refine List.Perm.eq_of_pairwise (fun a b _ _ hab hba => absurd hab (String.lt_asymm hba))
    (pairwise_sortedBy key items) (pairwise_sortedBy key items') ?_
  rw [List.perm_ext_iff_of_nodup (nodup_sortedBy key items) (nodup_sortedBy key items')]
  intro a
  rw [mem_sortedBy_iff, mem_sortedBy_iff, find?_key_eq_some_iff hkey, find?_key_eq_some_iff hkey', h]

/-- Only the keys decide, so values may be changed before or after. -/
theorem sortedBy_map (f : α → β) (key : β → String) (items : List α) :
    sortedBy key (items.map f) = (sortedBy (fun a => key (f a)) items).map f := by
  have step (m : StringMap α) (k : String) (a : α) :
      (m.map fun _ => f).insertIfNew k (f a) = (m.insertIfNew k a).map fun _ => f := by
    refine Std.ExtTreeMap.ext_getElem? fun k' => ?_
    simp only [Std.ExtTreeMap.getElem?_insertIfNew, Std.ExtTreeMap.getElem?_map,
      Std.ExtTreeMap.mem_map]
    split <;> rfl
  have fold : ∀ (items : List α) (m : StringMap α),
      (items.map f).foldl (fun (m : StringMap β) b => m.insertIfNew (key b) b) (m.map fun _ => f) =
        (items.foldl (fun (m : StringMap α) a => m.insertIfNew (key (f a)) a) m).map
          fun _ => f := by
    intro items
    induction items with
    | nil => exact fun m => rfl
    | cons a items ih =>
      intro m
      rw [List.map_cons, List.foldl_cons, List.foldl_cons, step, ih]
  have start : (∅ : StringMap β) = (∅ : StringMap α).map fun _ => f :=
    Std.ExtTreeMap.ext_getElem? fun k => by simp
  rw [sortedBy, start, fold, Std.ExtTreeMap.toList_map, sortedBy, List.map_map, List.map_map]
  rfl

end Keyed

section Entries

variable {κ α σ τ : Type} [Ord κ] [Std.TransOrd κ] [Std.LawfulEqOrd κ] [DecidableEq κ]

theorem find?_toList (m : Std.ExtTreeMap κ α) (k : κ) :
    m.toList.find? (·.1 = k) = m[k]?.map (k, ·) := by
  cases hm : m[k]? with
  | none =>
    rw [Option.map_none, List.find?_eq_none]
    rintro ⟨k', v⟩ he hk
    obtain rfl : k' = k := by simpa using hk
    rw [Std.ExtTreeMap.mem_toList_iff_getElem?_eq_some, hm] at he
    simp at he
  | some v =>
    have hv : (k, v) ∈ m.toList := Std.ExtTreeMap.mem_toList_iff_getElem?_eq_some.2 hm
    cases hf : m.toList.find? (·.1 = k) with
    | none => simpa using List.find?_eq_none.1 hf _ hv
    | some e =>
      obtain ⟨k', v'⟩ := e
      obtain rfl : k' = k := by simpa using List.find?_some hf
      have he := List.mem_of_find?_eq_some hf
      rw [Std.ExtTreeMap.mem_toList_iff_getElem?_eq_some, hm] at he
      simp [Option.some.inj he]

/-- A fold over the entries of a map, seen through a view that nothing but the
entry at `k` changes. -/
theorem view_foldl_toList (m : Std.ExtTreeMap κ α) (k : κ) (view : σ → τ) (act : α → τ → τ)
    (step : σ → κ × α → σ) (hit : ∀ s v, view (step s (k, v)) = act v (view s))
    (miss : ∀ s e, e.1 ≠ k → view (step s e) = view s) (s : σ) :
    view (m.toList.foldl step s) = m[k]?.elim (view s) (act · (view s)) := by
  have fold : ∀ (l : List (κ × α)) (s : σ), l.Pairwise (fun a b => ¬compare a.1 b.1 = .eq) →
      view (l.foldl step s) = (l.find? (·.1 = k)).elim (view s) fun e => act e.2 (view s) := by
    intro l
    induction l with
    | nil => intro s _; rfl
    | cons e l ih =>
      intro s hl
      rw [List.pairwise_cons] at hl
      rw [List.foldl_cons, ih _ hl.2]
      by_cases he : e.1 = k
      · have hnone : l.find? (·.1 = k) = none := by
          rw [List.find?_eq_none]
          intro e' he' hk
          have hcmp := hl.1 e' he'
          simp_all
        obtain ⟨k', v⟩ := e
        obtain rfl : k' = k := he
        simp [hnone, hit]
      · simp [he, miss s e he]
  rw [fold _ s m.distinct_keys_toList, find?_toList]
  cases m[k]? <;> rfl

end Entries

theorem mem_of_lookup_eq_some {κ α : Type} [BEq κ] [LawfulBEq κ] {l : List (κ × α)} {k : κ} {a : α}
    (h : l.lookup k = some a) : (k, a) ∈ l := by
  obtain ⟨front, back, hl, -⟩ := List.lookup_eq_some_iff.1 h
  rw [hl]
  simp

section Distinct

variable {α : Type} {l : List (String × α)}

/-- Where no key is repeated, the map of a list has the entries of the list. -/
theorem getElem?_ofList_eq_some_iff (h : (l.map (·.1)).Nodup) {k : String} {a : α} :
    (Std.ExtTreeMap.ofList l : StringMap α)[k]? = some a ↔ (k, a) ∈ l := by
  have hdistinct : l.Pairwise fun e e' => ¬compare e.1 e'.1 = .eq := by
    simpa [List.Nodup, List.pairwise_map] using h
  have hmem (b : α) (hb : (k, b) ∈ l) : (Std.ExtTreeMap.ofList l : StringMap α)[k]? = some b :=
    Std.ExtTreeMap.getElem?_ofList_of_mem (Std.ReflCmp.compare_self) hdistinct hb
  constructor
  · intro ha
    by_cases hk : k ∈ l.map (·.1)
    · obtain ⟨⟨k, b⟩, hb, rfl⟩ := List.mem_map.1 hk
      obtain rfl : b = a := Option.some.inj ((hmem b hb).symm.trans ha)
      exact hb
    · have hnone : (Std.ExtTreeMap.ofList l : StringMap α)[k]? = none :=
        Std.ExtTreeMap.getElem?_ofList_of_contains_eq_false (by simpa using hk)
      rw [hnone] at ha
      nomatch ha
  · exact hmem a

theorem nodup_keys_toList (m : StringMap α) : (m.toList.map (·.1)).Nodup := by
  rw [List.Nodup, List.pairwise_map]
  exact m.distinct_keys_toList.imp fun h => by simpa using h

theorem ofList_toList (m : StringMap α) : (Std.ExtTreeMap.ofList m.toList : StringMap α) = m := by
  refine Std.ExtTreeMap.ext_getElem? fun k => Option.ext fun a => ?_
  rw [getElem?_ofList_eq_some_iff (nodup_keys_toList m),
    Std.ExtTreeMap.mem_toList_iff_getElem?_eq_some]

end Distinct

end PodTarget
