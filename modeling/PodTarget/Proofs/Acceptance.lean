import PodTarget.Proofs.Description
import PodTarget.Proofs.JsonPrinting
import PodTarget.Proofs.Shapes

/-! Which texts are read as specs. A spec is an object that gives no field twice
and has a name; each field it gives has its shape, and its subspecs are specs.
Members that are no fields may be anything that has a value. -/

namespace PodTarget

open Json Json.Document

/-! ### Shapes of fields -/

def Attribute.Fits : Attribute → Document → Prop
  | list .dependencies, d =>
    d = .null ∨ d.OneOrMany ∨ (∃ ms, d = .object ms) ∧ d.valued = true
  | list _, d => d = .null ∨ d.OneOrMany
  | resourceBundles, d => d = .null ∨ d.MapOf OneOrMany
  | xcconfig, d => d.MapOf IsText
  | swiftVersions, d => d = .null ∨ d.OneOrMany
  | moduleName, d => d = .null ∨ d.IsText

theorem Attribute.takes_decoder (a : Attribute) : Takes a.decoder a.Fits := by
  cases a with
  | list l =>
    cases l with
    | dependencies => exact takes_names.optional.map _
    | _ => exact takes_oneOrMany.optional.map _
  | resourceBundles => exact takes_oneOrMany.mapOf.optional.map _
  | xcconfig => exact takes_string.mapOf
  | swiftVersions => exact takes_oneOrMany.optional
  | moduleName => exact takes_string.optional

/-- An object that gives no attribute twice, each with its shape. -/
def IsSection (d : Document) : Prop :=
  ∃ ms, d = .object ms ∧ (∀ m ∈ ms, m.1.isSome = true) ∧
    ((known Attribute.ofKey? ms).map (·.1)).Nodup ∧
    ∀ a e, (a, e) ∈ known Attribute.ofKey? ms → a.Fits e

/-- The shape that the value of a property has. The items of `subspecs` are
looked at apart. -/
def Property.Fits : Property → Document → Prop
  | name, d => d.IsText
  | version, d => d = .null ∨ d.IsText
  | platforms, d => d = .null ∨ d.MapOf fun e => e = .null ∨ e.IsText
  | staticFramework, d => ∃ b, d = .boolean b
  | defaultSubspecs, d => d = .null ∨ d.OneOrMany
  | platformSection _, d => d = .null ∨ IsSection d
  | subspecs, d => ∃ ds, d = .array ds

/-- What a spec is, as a document. -/
inductive IsSpec : Document → Prop
  | object {ms : List (Option String × Document)}
      (keyed : Keyed Property.ofKey? (·.valued = true) ms)
      (named : Property.name ∈ (known Property.ofKey? ms).map (·.1))
      (propertiesOnce : ((known Property.ofKey? ms).map (·.1)).Nodup)
      (properties : ∀ p d, (p, d) ∈ known Property.ofKey? ms → p.Fits d)
      (subspecs : ∀ ds d, (Property.subspecs, .array ds) ∈ known Property.ofKey? ms → d ∈ ds →
        IsSpec d)
      (attributesOnce : ((known Attribute.ofKey? ms).map (·.1)).Nodup)
      (attributes : ∀ a d, (a, d) ∈ known Attribute.ofKey? ms → a.Fits d) :
      IsSpec (.object ms)

/-- The specs in a document: its own and those of its subspecs. -/
inductive SpecIn : Document → Document → Prop
  | self (d : Document) : SpecIn d d
  | subspec {ms : List (Option String × Document)} {ds : List Document} {d e : Document}
      (h : (Property.subspecs, .array ds) ∈ known Property.ofKey? ms) (hd : d ∈ ds)
      (he : SpecIn e d) : SpecIn e (.object ms)

/-- No platform section of a spec in the document is an array. -/
def ObjectSections (d : Document) : Prop :=
  ∀ ms q ds, SpecIn (.object ms) d →
    (Property.platformSection q, .array ds) ∉ known Property.ofKey? ms

/-! ### Sections -/

theorem whole_of_mem_known {φ : Type} {ofKey? : String → Option φ}
    {ms : List (Option String × Document)} (h : (Document.object ms).whole = true) {a : φ}
    {d : Document} (hd : (a, d) ∈ known ofKey? ms) : d.whole = true := by
  obtain ⟨k, -, hm⟩ := mem_known.1 hd
  exact whole_object_iff.1 h _ hm

theorem depth_le_of_mem_known {φ : Type} {ofKey? : String → Option φ}
    {ms : List (Option String × Document)} {room : Nat} (h : (Document.object ms).depth ≤ room + 1)
    {a : φ} {d : Document} (hd : (a, d) ∈ known ofKey? ms) : d.depth ≤ room := by
  obtain ⟨k, -, hm⟩ := mem_known.1 hd
  exact depth_object_le_iff.1 h _ hm

theorem Attributes.exists_told_iff {l : List (Attribute × Document)} {room : Nat}
    (hl : ∀ e ∈ l, e.2.depth ≤ room) :
    (∃ t, Told room l t) ↔ (l.map (·.1)).Nodup ∧ ∀ a d, (a, d) ∈ l → a.Fits d := by
  refine (PodTarget.exists_told_iff ofValues get_ofValues).trans ?_
  apply and_congr_right
  intro _
  constructor
  · intro h a d hm
    exact (a.takes_decoder d room (hl _ hm)).1 (h a d hm)
  · intro h a d hm
    exact (a.takes_decoder d room (hl _ hm)).2 (h a d hm)

theorem Attributes.exists_decode_iff {d : Document} {room : Nat} (hdepth : d.depth ≤ room)
    (hwhole : d.whole = true) (harray : ∀ ds, d ≠ .array ds) :
    (∃ t, decode room d = .ok t) ↔ IsSection d := by
  cases d with
  | object ms =>
    cases room with
    | zero => rw [depth] at hdepth; omega
    | succ room =>
      have htold : (∃ t, Told room (known Attribute.ofKey? ms) t) ↔ _ :=
        exists_told_iff fun e he => depth_le_of_mem_known hdepth he
      simp only [decode_object_eq_ok_iff]
      constructor
      · rintro ⟨t, hkeyed, ht⟩
        obtain ⟨honce, hfits⟩ := htold.1 ⟨t, ht⟩
        refine ⟨ms, rfl, fun m hm => ?_, honce, hfits⟩
        obtain ⟨k, hk, -⟩ := hkeyed m hm
        exact hk ▸ rfl
      · rintro ⟨_, heq, hkeys, honce, hfits⟩
        obtain rfl := Document.object.inj heq
        obtain ⟨t, ht⟩ := htold.2 ⟨honce, hfits⟩
        refine ⟨t, fun m hm => ?_, ht⟩
        obtain ⟨k, hk⟩ := Option.isSome_iff_exists.1 (hkeys m hm)
        exact ⟨k, hk, fun _ => whole_object_iff.1 hwhole m hm⟩
  | array ds => exact absurd rfl (harray ds)
  | _ =>
    refine iff_of_false ?_ ?_
    · rintro ⟨t, h⟩
      cases room <;> nomatch h
    · rintro ⟨ms, h, -⟩
      nomatch h

/-! ### Properties -/

theorem Property.exists_decoder_iff {p : Property} (hp : p ≠ .subspecs) {d : Document} {room : Nat}
    (hdepth : d.depth ≤ room) (hwhole : d.whole = true)
    (harray : ∀ q, p = .platformSection q → ∀ ds, d ≠ .array ds) :
    (∃ v, p.decoder room d = .ok v) ↔ p.Fits d := by
  cases p with
  | name => exact takes_string d room hdepth
  | version => exact takes_string.optional d room hdepth
  | platforms => exact (takes_string.optional.mapOf.optional.map _) d room hdepth
  | staticFramework => exact takes_boolean d room hdepth
  | defaultSubspecs => exact (takes_oneOrMany.optional.map _) d room hdepth
  | platformSection q =>
    exact exists_optional_iff.trans
      (or_congr_right (Attributes.exists_decode_iff hdepth hwhole (harray q rfl)))
  | subspecs => exact absurd rfl hp

namespace Podspec

theorem exists_decodeItems_iff {ds : List Document} {room : Nat} :
    (∃ ss, decodeItems ds room = .ok ss) ↔ ∀ d ∈ ds, ∃ s, decode d room = .ok s := by
  induction ds with
  | nil => exact iff_of_true ⟨[], by rw [decodeItems]⟩ nofun
  | cons d ds ih =>
    rw [decodeItems_cons, List.forall_mem_cons, ← ih]
    cases decode d room with
    | error e => exact ⟨nofun, fun h => nomatch h.1⟩
    | ok s =>
      cases decodeItems ds room with
      | error e => exact ⟨nofun, fun h => nomatch h.2⟩
      | ok ss => exact iff_of_true ⟨_, rfl⟩ ⟨⟨s, rfl⟩, ss, rfl⟩

def ofValues (v : (p : Property) → p.Value) : Podspec where
  declaration :=
    ⟨v .name, v .version, v .platforms, v .staticFramework, v .defaultSubspecs,
      .ofFn fun q => v (.platformSection q), .empty⟩
  subspecs := v .subspecs

theorem get_ofValues (v : (p : Property) → p.Value) (p : Property) : p.get (ofValues v) = v p := by
  cases p with
  | platformSection q => exact PerPlatform.get_ofFn _ q
  | _ => rfl

theorem exists_described_iff {room : Nat} {ms : List (Option String × Document)} :
    (∃ s, Described room ms s) ↔ Keyed Property.ofKey? (·.sound room = true) ms ∧
      Property.name ∈ (known Property.ofKey? ms).map (·.1) ∧
      (((known Property.ofKey? ms).map (·.1)).Nodup ∧
        ∀ p d, (p, d) ∈ known Property.ofKey? ms → ∃ v, p.decoder room d = .ok v) ∧
      ∃ t, Attributes.Told room (known Attribute.ofKey? ms) t := by
  constructor
  · rintro ⟨s, hkeyed, hnamed, hprops, hattrs⟩
    exact ⟨hkeyed, hnamed, ⟨hprops.once, fun p d hm => ⟨_, hprops.said p d hm⟩⟩, _, hattrs⟩
  · rintro ⟨hkeyed, hnamed, hprops, t, hattrs⟩
    obtain ⟨s, hs⟩ : ∃ s, Told Property.decoder Property.get Draft.start.spec room
        (known Property.ofKey? ms) s := (exists_told_iff ofValues get_ofValues).2 hprops
    refine ⟨⟨{ s.declaration with attributes := t }, s.subspecs⟩, hkeyed, hnamed, ?_, hattrs⟩
    refine hs.congr fun p => ?_
    cases p <;> rfl

theorem keyed_sound_iff {room : Nat} {ms : List (Option String × Document)}
    (h : (Document.object ms).depth ≤ room + 1) :
    Keyed Property.ofKey? (·.sound room = true) ms ↔
      Keyed Property.ofKey? (·.valued = true) ms := by
  refine forall₂_congr fun m hm => ?_
  have hd := depth_object_le_iff.1 h m hm
  simp only [sound_iff, hd, and_true]

theorem objectSections_object_iff {ms : List (Option String × Document)} :
    ObjectSections (.object ms) ↔
      (∀ q ds, (Property.platformSection q, .array ds) ∉ known Property.ofKey? ms) ∧
        ∀ ds d, (Property.subspecs, .array ds) ∈ known Property.ofKey? ms → d ∈ ds →
          ObjectSections d := by
  constructor
  · intro h
    exact ⟨fun q ds => h ms q ds (.self _),
      fun ds d hds hd ms' q es he => h ms' q es (.subspec hds hd he)⟩
  · rintro ⟨hown, hsubspecs⟩ ms' q es he
    cases he with
    | self => exact hown q es
    | subspec hds hd he => exact hsubspecs _ _ hds hd ms' q es he

theorem exists_decodeSubspecs_iff_isSpec {ms : List (Option String × Document)} {d : Document}
    {room : Nat} (hd : (Property.subspecs, d) ∈ known Property.ofKey? ms) (hdepth : d.depth ≤ room)
    (hwhole : d.whole = true) (hsections : ObjectSections (.object ms))
    (ih : ∀ r < room, ∀ {e : Document}, e.depth ≤ r → e.whole = true → ObjectSections e →
      ((∃ s, decode e r = .ok s) ↔ IsSpec e)) :
    (∃ ss, decodeSubspecs d room = .ok ss) ↔
      (∃ ds, d = .array ds) ∧ ∀ ds e, d = .array ds → e ∈ ds → IsSpec e := by
  cases d with
  | array ds =>
    cases room with
    | zero => rw [depth] at hdepth; omega
    | succ room =>
      rw [decodeSubspecs, exists_decodeItems_iff, and_iff_right ⟨ds, rfl⟩]
      have hitem (e : Document) (he : e ∈ ds) := ih room (Nat.lt_succ_self room)
        (depth_array_le_iff.1 hdepth e he) (whole_array_iff.1 hwhole e he)
        ((objectSections_object_iff.1 hsections).2 ds e hd he)
      constructor
      · intro h _ e heq he
        obtain rfl := Document.array.inj heq
        exact (hitem e he).1 (h e he)
      · intro h e he
        exact (hitem e he).2 (h ds e rfl he)
  | _ =>
    refine iff_of_false ?_ ?_
    · rintro ⟨ss, h⟩
      simp [decodeSubspecs] at h
    · rintro ⟨⟨ds, h⟩, -⟩
      nomatch h

theorem exists_decode_iff {room : Nat} {d : Document} (hdepth : d.depth ≤ room)
    (hwhole : d.whole = true) (hsections : ObjectSections d) :
    (∃ s, decode d room = .ok s) ↔ IsSpec d := by
  induction room using Nat.strongRecOn generalizing d with
  | ind room ih =>
    cases d with
    | object ms =>
      cases room with
      | zero => rw [depth] at hdepth; omega
      | succ room =>
        have hsubspecs (d : Document) (hm : (Property.subspecs, d) ∈ known Property.ofKey? ms) :=
          exists_decodeSubspecs_iff_isSpec hm (depth_le_of_mem_known hdepth hm)
            (whole_of_mem_known hwhole hm) hsections fun r hr => ih r (Nat.lt_succ_of_lt hr)
        have hothers (p : Property) (d : Document) (hm : (p, d) ∈ known Property.ofKey? ms)
            (hp : p ≠ .subspecs) : (∃ v, p.decoder room d = .ok v) ↔ p.Fits d := by
          refine p.exists_decoder_iff hp (depth_le_of_mem_known hdepth hm)
            (whole_of_mem_known hwhole hm) ?_
          rintro q rfl ds rfl
          exact (objectSections_object_iff.1 hsections).1 q ds hm
        have hattrs : (∃ t, Attributes.Told room (known Attribute.ofKey? ms) t) ↔ _ :=
          Attributes.exists_told_iff fun e he => depth_le_of_mem_known hdepth he
        simp only [decode_object_eq_ok_iff]
        rw [exists_described_iff, keyed_sound_iff hdepth, hattrs]
        constructor
        · rintro ⟨hkeyed, hnamed, ⟨honce, hdecoded⟩, hattrsOnce, hfits⟩
          refine .object hkeyed hnamed honce (fun p d hm => ?_) (fun ds e hm he => ?_) hattrsOnce
            hfits
          · by_cases hp : p = .subspecs
            · subst hp
              exact ((hsubspecs d hm).1 (hdecoded _ d hm)).1
            · exact (hothers p d hm hp).1 (hdecoded p d hm)
          · exact ((hsubspecs _ hm).1 (hdecoded _ _ hm)).2 ds e rfl he
        · rintro ⟨hkeyed, hnamed, honce, hprops, hspecs, hattrsOnce, hfits⟩
          refine ⟨hkeyed, hnamed, ⟨honce, fun p d hm => ?_⟩, hattrsOnce, hfits⟩
          by_cases hp : p = .subspecs
          · subst hp
            refine (hsubspecs d hm).2 ⟨hprops _ d hm, ?_⟩
            rintro ds e rfl he
            exact hspecs ds e hm he
          · exact (hothers p d hm hp).2 (hprops p d hm)
    | _ =>
      refine iff_of_false ?_ nofun
      rintro ⟨s, h⟩
      simp [decode] at h

/-- A text is read as a spec if and only if its document is one. -/
theorem exists_ofJson_iff {d : Document} {s : String} (h : TextOf d s.toList)
    (hdepth : d.depth ≤ 127) (hsections : ObjectSections d) :
    (∃ spec, ofJson s = .ok spec) ↔ IsSpec d := by
  rw [ofJson_eq_decode h, exists_decode_iff hdepth h.whole hsections]

def player : List (String × Document) :=
  [("name", .string "Player"), ("ios", .ofMembers [("frameworks", .string "UIKit")]),
    ("subspecs", .array [.ofMembers [("name", .string "Core")]])]

theorem plain_singleton (k s : String) : Plain (.ofMembers [(k, .string s)]) :=
  .ofMembers fun m hm => by
    rw [List.mem_singleton.1 hm]
    exact .string s

theorem plain_player : Plain (.ofMembers player) := by
  refine .ofMembers fun m hm => ?_
  simp only [player, List.mem_cons, List.not_mem_nil, or_false] at hm
  rcases hm with rfl | rfl | rfl
  · exact .string _
  · exact plain_singleton _ _
  · refine .array fun d hd => ?_
    rw [List.mem_singleton.1 hd]
    exact plain_singleton _ _

theorem objectSections_player : ObjectSections (.ofMembers player) := by
  have hplayer : Document.ofMembers player = .object
      [(some "name", .string "Player"),
        (some "ios", .ofMembers [("frameworks", .string "UIKit")]),
        (some "subspecs", .array [.ofMembers [("name", .string "Core")]])] := rfl
  have hknown : known Property.ofKey?
      [(some "name", .string "Player"),
        (some "ios", .ofMembers [("frameworks", .string "UIKit")]),
        (some "subspecs", .array [.ofMembers [("name", .string "Core")]])] =
      [(.name, .string "Player"),
        (.platformSection .ios, .ofMembers [("frameworks", .string "UIKit")]),
        (.subspecs, .array [.ofMembers [("name", .string "Core")]])] := rfl
  have hcore : known Property.ofKey? [(some "name", .string "Core")] =
      [(.name, .string "Core")] := rfl
  rw [hplayer, objectSections_object_iff, hknown]
  refine ⟨fun q ds hm => ?_, fun ds d hds hd => ?_⟩
  · simp [Document.ofMembers] at hm
  · obtain rfl : ds = [.ofMembers [("name", .string "Core")]] := by simpa using hds
    obtain rfl := List.mem_singleton.1 hd
    rw [Document.ofMembers, List.map_cons, List.map_nil, objectSections_object_iff, hcore]
    simp

theorem exists_ofJson_player :
    TextOf (.ofMembers player) (Document.ofMembers player).print.toList ∧
      (Document.ofMembers player).depth ≤ 127 ∧ ObjectSections (.ofMembers player) ∧
      ((∃ spec, ofJson (Document.ofMembers player).print = .ok spec) ↔
        IsSpec (.ofMembers player)) :=
  have htext := plain_player.printed.textOf
  have hdepth : (Document.ofMembers player).depth ≤ 127 := by decide
  ⟨htext, hdepth, objectSections_player, exists_ofJson_iff htext hdepth objectSections_player⟩

/-- A name beside a member that has no value. -/
def besideValueless : List (Option String × Document) :=
  [(some "name", .string "A"), (some "x", .valueless)]

theorem textOf_besideValueless {s : List Char} (h : Written .valueless s) :
    TextOf (.object besideValueless)
      ("\x7b\"name\":\"A\",\"x\":".toList ++ (s ++ "\x7d".toList)) := by
  have hname : Literal ("name".toList.map Char.toNat) "name\"".toList := literal_escapes _
  have hvalue : Literal ("A".toList.map Char.toNat) "A\"".toList := literal_escapes _
  have hother : Literal ("x".toList.map Char.toNat) "x\"".toList := literal_escapes _
  apply TextOf.of_written
  apply Written.object (s := "\"name\":\"A\",\"x\":".toList ++ s)
  apply WrittenMembers.cons (s := "\"name\":\"A\"".toList) (t := "\"x\":".toList ++ s)
  · exact .keyed (w := []) (v := []) nofun hname nofun (.of_written (.string hvalue))
  · exact .last (.keyed (w := []) (v := []) nofun hother nofun (.of_written h))

theorem written_half : Written .valueless "\"\\ud800\"".toList := by
  have hunits : Literal [0xD800] "\\ud800\"".toList := .unit rfl .close
  exact .string hunits

theorem digits_of_all {s : List Char} (hs : s ≠ []) (h : s.all Char.isDigit = true) : Digits s :=
  ⟨hs, List.all_eq_true.1 h⟩

theorem written_tooLarge (whole exponent : List Char) (hw : Digits whole)
    (hz : whole.head? ≠ some '0') (he : Digits exponent)
    (hvalue : Numeral.value? ⟨false, whole, none,
      some (PodTarget.Number.digitsValue exponent)⟩ = none) :
    Written .valueless (whole ++ 'e' :: exponent) := by
  have hnumeral : NumeralText ⟨false, whole, none, some (PodTarget.Number.digitsValue exponent)⟩
      (whole ++ 'e' :: exponent) :=
    .digits hw (fun h => absurd h hz) .absent (.letter (.inl rfl) .absent he)
  have hnumber := Written.number hnumeral
  rwa [hvalue] at hnumber

/-- A number that is not larger than the largest double but is rounded past it. -/
theorem written_roundedUp : Written .valueless "1797693134862315708e290".toList :=
  written_tooLarge "1797693134862315708".toList "290".toList (digits_of_all nofun rfl) (by decide)
    (digits_of_all nofun rfl) (by decide +kernel)

/-- A member that is no field keeps a spec from being read if it has no value,
although its text is JSON and its number is no larger than the largest double. -/
theorem ofJson_besideValueless :
    (known Property.ofKey? besideValueless = [(.name, .string "A")] ∧
        known Attribute.ofKey? besideValueless = []) ∧
      (TextOf (.object besideValueless) "\x7b\"name\":\"A\",\"x\":\"\\ud800\"\x7d".toList ∧
        ofJson "\x7b\"name\":\"A\",\"x\":\"\\ud800\"\x7d" = .error .malformed) ∧
      1797693134862315708 * Nat.pow 10 290 ≤ (Nat.pow 2 53 - 1) * Nat.pow 2 971 ∧
        TextOf (.object besideValueless)
          "\x7b\"name\":\"A\",\"x\":1797693134862315708e290\x7d".toList ∧
        ofJson "\x7b\"name\":\"A\",\"x\":1797693134862315708e290\x7d" = .error .malformed := by
  have hdecode : decode (.object besideValueless) 127 = .error .malformed := rfl
  have hhalf := textOf_besideValueless written_half
  have hnumber := textOf_besideValueless written_roundedUp
  exact ⟨⟨rfl, rfl⟩, ⟨hhalf, (ofJson_eq_decode hhalf).trans hdecode⟩, by decide +kernel, hnumber,
    (ofJson_eq_decode hnumber).trans hdecode⟩

end Podspec

end PodTarget
