import Mathlib.Data.List.Nodup
import PodTarget.Proofs.Room

/-! The shapes of documents that decoders take. As long as there is room for a
document, whether a decoder takes it depends on its shape alone. -/

namespace PodTarget.Json

namespace Document

def IsText (d : Document) : Prop := ∃ s, d = .string s

def OneOrMany (d : Document) : Prop := d.IsText ∨ ∃ l, d = .ofStrings l

/-- An object each of whose members has a key and a value with `P`. -/
def MapOf (P : Document → Prop) (d : Document) : Prop :=
  ∃ ms, d = .object ms ∧ ∀ m ∈ ms, m.1.isSome = true ∧ P m.2

end Document

open Document

/-- The decoder takes the documents with `P`, of those there is room for. -/
def Takes {α : Type} (dec : Decoder α) (P : Document → Prop) : Prop :=
  ∀ d room, d.depth ≤ room → ((∃ a, dec room d = .ok a) ↔ P d)

section Takes

variable {α β : Type} {dec : Decoder α} {P : Document → Prop}

theorem takes_string : Takes Decoder.string IsText := by
  intro d room _
  constructor
  · rintro ⟨s, hs⟩
    cases d with
    | string s => exact ⟨s, rfl⟩
    | _ => nomatch hs
  · rintro ⟨s, rfl⟩
    exact ⟨s, rfl⟩

theorem takes_boolean : Takes Decoder.boolean fun d => ∃ b, d = .boolean b := by
  intro d room _
  constructor
  · rintro ⟨b, hb⟩
    cases d with
    | boolean b => exact ⟨b, rfl⟩
    | _ => nomatch hb
  · rintro ⟨b, rfl⟩
    exact ⟨b, rfl⟩

theorem exists_map_eq_ok_iff {x : Except Error α} (f : α → β) :
    (∃ b, x.map f = .ok b) ↔ ∃ a, x = .ok a := by
  cases x with
  | error e => exact ⟨nofun, nofun⟩
  | ok a => exact ⟨fun _ => ⟨a, rfl⟩, fun _ => ⟨f a, rfl⟩⟩

theorem Takes.map (h : Takes dec P) (f : α → β) :
    Takes (fun room d => (dec room d).map f) P := fun d room hd =>
  (exists_map_eq_ok_iff f).trans (h d room hd)

theorem exists_optional_iff {d : Document} {room : Nat} :
    (∃ o, Decoder.optional dec room d = .ok o) ↔ d = .null ∨ ∃ a, dec room d = .ok a := by
  by_cases hnull : d = .null
  · subst hnull
    exact iff_of_true ⟨none, rfl⟩ (.inl rfl)
  · rw [Decoder.optional_of_ne_null hnull, exists_map_eq_ok_iff, or_iff_right hnull]

theorem Takes.optional (h : Takes dec P) :
    Takes (Decoder.optional dec) fun d => d = .null ∨ P d := fun d room hd =>
  exists_optional_iff.trans (or_congr_right (h d room hd))

theorem exists_entries_iff {room : Nat} {ms : List (Option String × Document)} :
    (∃ es, Decoder.entries dec room ms = .ok es) ↔
      ∀ m ∈ ms, m.1.isSome = true ∧ ∃ a, dec room m.2 = .ok a := by
  induction ms with
  | nil => exact iff_of_true ⟨[], rfl⟩ nofun
  | cons m ms ih =>
    obtain ⟨k, d⟩ := m
    rw [List.forall_mem_cons]
    cases k with
    | none => exact ⟨nofun, fun h => nomatch h.1.1⟩
    | some k =>
      rw [Decoder.entries, ← ih]
      cases dec room d with
      | error e => exact ⟨nofun, fun ⟨⟨_, _, h⟩, _⟩ => nomatch h⟩
      | ok a =>
        cases Decoder.entries dec room ms with
        | error e => exact ⟨nofun, fun ⟨_, _, h⟩ => nomatch h⟩
        | ok es => exact iff_of_true ⟨_, rfl⟩ ⟨⟨rfl, a, rfl⟩, es, rfl⟩

theorem Takes.mapOf (h : Takes dec P) : Takes (Decoder.map dec) (MapOf P) := by
  intro d room hd
  have hother (hd : ∀ ms, d ≠ .object ms) :
      Decoder.map dec room d = .error (mismatch d "a map") := by
    cases d with
    | object ms => exact absurd rfl (hd ms)
    | _ => cases room <;> rfl
  by_cases hobject : ∃ ms, d = .object ms
  · obtain ⟨ms, rfl⟩ := hobject
    cases room with
    | zero => rw [depth] at hd; omega
    | succ room =>
      rw [depth_object_le_iff] at hd
      rw [Decoder.map, exists_map_eq_ok_iff, exists_entries_iff]
      constructor
      · intro hall
        exact ⟨ms, rfl, fun m hm => ⟨(hall m hm).1, (h m.2 room (hd m hm)).1 (hall m hm).2⟩⟩
      · rintro ⟨_, heq, hall⟩ m hm
        obtain rfl := Document.object.inj heq
        exact ⟨(hall m hm).1, (h m.2 room (hd m hm)).2 (hall m hm).2⟩
  · rw [hother fun ms hms => hobject ⟨ms, hms⟩]
    exact ⟨nofun, fun ⟨ms, hms, _⟩ => absurd ⟨ms, hms⟩ hobject⟩

theorem Takes.congr {Q : Document → Prop} (h : Takes dec P) (hPQ : ∀ d, P d ↔ Q d) :
    Takes dec Q := fun d room hd =>
  (h d room hd).trans (hPQ d)

theorem buffered_eq_ok_iff {kind : String} {shape : Document → Option α} {d : Document} {room : Nat}
    (hd : d.depth ≤ room) {a : α} :
    Decoder.buffered kind shape room d = .ok a ↔ d.valued = true ∧ shape d = some a := by
  rw [Decoder.buffered]
  by_cases hv : d.valued = true
  · rw [if_pos ((d.sound_iff room).2 ⟨hv, hd⟩), and_iff_right hv]
    cases shape d with
    | none => exact ⟨nofun, nofun⟩
    | some b =>
      exact ⟨fun h => congrArg some (Except.ok.inj h), fun h => congrArg _ (Option.some.inj h)⟩
  · rw [if_neg fun h => hv ((d.sound_iff room).1 h).1]
    exact ⟨nofun, fun h => absurd h.1 hv⟩

/-- What is looked through first has to have values. -/
theorem takes_buffered {kind : String} {shape : Document → Option α}
    (h : ∀ d, (∃ a, shape d = some a) ↔ P d) :
    Takes (Decoder.buffered kind shape) fun d => d.valued = true ∧ P d := by
  intro d room hd
  simp only [buffered_eq_ok_iff hd, exists_and_left, h]

theorem strings?_eq_some_iff {d : Document} {l : List String} :
    Decoder.strings? d = some l ↔ d = .ofStrings l := by
  constructor
  · intro h
    cases d with
    | array ds =>
      rw [Decoder.strings?] at h
      rw [ofStrings]
      congr 1
      induction ds generalizing l with
      | nil => obtain rfl := Option.some.inj h; rfl
      | cons d ds ih =>
        rw [List.mapM_cons] at h
        obtain ⟨s, hs, h⟩ := Option.bind_eq_some_iff.1 h
        obtain ⟨l', hl', h⟩ := Option.bind_eq_some_iff.1 h
        obtain rfl := Option.some.inj h
        rw [List.map_cons, ← ih hl']
        cases d with
        | string s' => rw [Option.some.inj hs]
        | _ => nomatch hs
    | _ => nomatch h
  · rintro rfl
    rw [ofStrings, Decoder.strings?]
    induction l with
    | nil => rfl
    | cons s l ih => rw [List.map_cons, List.mapM_cons, ih]; rfl

theorem ofStrings_injective : Function.Injective ofStrings := by
  intro l l' h
  have hl := strings?_eq_some_iff.2 h
  rw [strings?_eq_some_iff.2 rfl] at hl
  exact Option.some.inj hl

theorem oneOrMany?_eq_some_iff {d : Document} {l : List String} :
    Decoder.oneOrMany? d = some l ↔ (∃ s, d = .string s ∧ l = [s]) ∨ d = .ofStrings l := by
  rw [← strings?_eq_some_iff]
  cases d with
  | string s => simp [Decoder.oneOrMany?, Decoder.string?, Decoder.strings?, eq_comm]
  | _ => simp [Decoder.oneOrMany?, Decoder.string?]

theorem valued_ofStrings (l : List String) : (ofStrings l).valued = true := by
  rw [ofStrings, valued_array_iff, List.forall_mem_map]
  exact fun _ _ => rfl

theorem Document.OneOrMany.valued {d : Document} (h : d.OneOrMany) : d.valued = true := by
  rcases h with ⟨s, rfl⟩ | ⟨l, rfl⟩
  · rfl
  · exact valued_ofStrings l

theorem exists_oneOrMany?_iff (d : Document) :
    (∃ l, Decoder.oneOrMany? d = some l) ↔ d.OneOrMany := by
  simp only [oneOrMany?_eq_some_iff, OneOrMany, IsText]
  constructor
  · rintro ⟨l, ⟨s, rfl, -⟩ | h⟩
    · exact .inl ⟨s, rfl⟩
    · exact .inr ⟨l, h⟩
  · rintro (⟨s, rfl⟩ | ⟨l, h⟩)
    · exact ⟨[s], .inl ⟨s, rfl, rfl⟩⟩
    · exact ⟨l, .inr h⟩

theorem takes_oneOrMany : Takes Decoder.oneOrMany OneOrMany :=
  (takes_buffered exists_oneOrMany?_iff).congr fun _ => and_iff_right_of_imp OneOrMany.valued

theorem oneOrMany_eq_ok_iff {d : Document} {room : Nat} (hd : d.depth ≤ room) {l : List String} :
    Decoder.oneOrMany room d = .ok l ↔ (∃ s, d = .string s ∧ l = [s]) ∨ d = .ofStrings l := by
  rw [Decoder.oneOrMany, buffered_eq_ok_iff hd, oneOrMany?_eq_some_iff]
  apply and_iff_right_of_imp
  rintro (⟨s, rfl, -⟩ | rfl)
  · rfl
  · exact valued_ofStrings l

/-- Names that are not the keys of an object are a list of texts. -/
theorem names_eq_ok_iff {d : Document} {room : Nat} (hd : d.depth ≤ room)
    (hobject : ∀ ms, d ≠ .object ms) {l : List String} :
    Decoder.names room d = .ok l ↔ Decoder.oneOrMany room d = .ok l := by
  rw [Decoder.names, Decoder.oneOrMany, buffered_eq_ok_iff hd, buffered_eq_ok_iff hd]
  cases d with
  | object ms => exact absurd rfl (hobject ms)
  | _ => exact Iff.rfl

theorem exists_namesOf?_iff (d : Document) :
    (∃ l, Decoder.namesOf? d = some l) ↔ d.OneOrMany ∨ ∃ ms, d = .object ms := by
  cases d with
  | object ms => exact iff_of_true ⟨_, rfl⟩ (.inr ⟨ms, rfl⟩)
  | _ => exact (exists_oneOrMany?_iff _).trans (or_iff_left nofun).symm

/-- Names may be given by any object that has values throughout. -/
theorem takes_names : Takes Decoder.names fun d =>
    d.OneOrMany ∨ (∃ ms, d = .object ms) ∧ d.valued = true := by
  refine (takes_buffered exists_namesOf?_iff).congr fun d => ?_
  rw [and_or_left, and_comm (b := d.OneOrMany), and_iff_left_of_imp OneOrMany.valued, and_comm]

end Takes

section Entries

variable {α : Type} {dec : Decoder α} {room : Nat} {ms : List (Option String × Document)}
  {es : List (String × α)}

theorem entries_cons_eq_ok_iff {k : String} {d : Document} :
    Decoder.entries dec room ((some k, d) :: ms) = .ok es ↔
      ∃ a es', dec room d = .ok a ∧ Decoder.entries dec room ms = .ok es' ∧ (k, a) :: es' = es := by
  rw [Decoder.entries]
  cases dec room d with
  | error e => exact ⟨nofun, fun ⟨_, _, h, _⟩ => nomatch h⟩
  | ok a =>
    cases Decoder.entries dec room ms with
    | error e => exact ⟨nofun, fun ⟨_, _, _, h, _⟩ => nomatch h⟩
    | ok es' =>
      constructor
      · intro h
        exact ⟨a, es', rfl, rfl, Except.ok.inj h⟩
      · rintro ⟨_, _, ha, hes, rfl⟩
        rw [Except.ok.inj ha, Except.ok.inj hes]
        rfl

theorem map_fst_entries (h : Decoder.entries dec room ms = .ok es) :
    es.map (fun e => some e.1) = ms.map (·.1) := by
  induction ms generalizing es with
  | nil =>
    obtain rfl := Except.ok.inj h
    rfl
  | cons m ms ih =>
    obtain ⟨k, d⟩ := m
    cases k with
    | none => nomatch h
    | some k =>
      obtain ⟨a, es', -, hes, rfl⟩ := entries_cons_eq_ok_iff.1 h
      rw [List.map_cons, List.map_cons, ih hes]

theorem mem_entries_iff (h : Decoder.entries dec room ms = .ok es) {k : String} {a : α} :
    (k, a) ∈ es ↔ ∃ d, (some k, d) ∈ ms ∧ dec room d = .ok a := by
  induction ms generalizing es with
  | nil =>
    obtain rfl := Except.ok.inj h
    simp
  | cons m ms ih =>
    obtain ⟨k', d⟩ := m
    cases k' with
    | none => nomatch h
    | some k' =>
      obtain ⟨a', es', ha', hes, rfl⟩ := entries_cons_eq_ok_iff.1 h
      rw [List.mem_cons, ih hes]
      constructor
      · rintro (heq | ⟨e, he, hea⟩)
        · obtain ⟨rfl, rfl⟩ := Prod.mk.inj heq
          exact ⟨d, List.mem_cons_self, ha'⟩
        · exact ⟨e, List.mem_cons_of_mem _ he, hea⟩
      · rintro ⟨e, he, hea⟩
        rcases List.mem_cons.1 he with heq | he
        · obtain ⟨hk, rfl⟩ := Prod.mk.inj heq
          obtain rfl := Option.some.inj hk
          rw [Except.ok.inj (ha'.symm.trans hea)]
          exact .inl rfl
        · exact .inr ⟨e, he, hea⟩

/-- Where no key is repeated, the order of the members of a map does not count. -/
theorem map_object_eq_ok_iff (hkeys : (ms.map (·.1)).Nodup) {m : StringMap α} :
    Decoder.map dec (room + 1) (.object ms) = .ok m ↔
      (∀ e ∈ ms, e.1.isSome = true ∧ ∃ a, dec room e.2 = .ok a) ∧
        ∀ k a, m[k]? = some a ↔ ∃ d, (some k, d) ∈ ms ∧ dec room d = .ok a := by
  have hget {es : List (String × α)} (h : Decoder.entries dec room ms = .ok es) (k : String)
      (a : α) : (.ofList es : StringMap α)[k]? = some a ↔
        ∃ d, (some k, d) ∈ ms ∧ dec room d = .ok a := by
    have hnodup : (es.map (·.1)).Nodup := by
      rw [← map_fst_entries h] at hkeys
      exact List.Nodup.of_map some (by rwa [List.map_map])
    rw [getElem?_ofList_eq_some_iff hnodup, mem_entries_iff h]
  rw [Decoder.map, ← exists_entries_iff]
  constructor
  · intro h
    cases hes : Decoder.entries dec room ms with
    | error e => rw [hes] at h; nomatch h
    | ok es =>
      rw [hes] at h
      obtain rfl := Except.ok.inj h
      exact ⟨⟨es, rfl⟩, hget hes⟩
  · rintro ⟨⟨es, hes⟩, hm⟩
    rw [hes]
    refine congrArg Except.ok (Std.ExtTreeMap.ext_getElem? fun k => Option.ext fun a => ?_)
    rw [hget hes, hm]

end Entries

end PodTarget.Json
