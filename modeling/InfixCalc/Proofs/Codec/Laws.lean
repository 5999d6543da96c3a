import Mathlib
import InfixCalc.Json.Codec
import InfixCalc.Proofs.Json

/-!
# The laws of libraries for JSON

What is expected of a library for JSON, one law for each thing that it does. A variant has its name
and its contents in a value, and a record has its settings under their keys or in their order; what
is written for numbers and settings is read back, and a number is read as the nearest one of the
format. The numbers of a text are those of the value that was written, as far as the library reads
them back.

Main statements: the library with which programs run keeps the laws, of values (`Json.codec_laws`),
of texts (`Json.codec_textLaws`) and of finite numbers in texts (`Json.codec_floatsReadBack`).
-/

namespace InfixCalc

/-! ## Laws -/

/-- A limit fits into a word. -/
def Setting.Fits : Setting → Prop
  | limit n => n < Config.limitBound
  | flag _ => True

section

variable {ν : Type} (read? : ContentType → Json ν → Option Data)

/-- Values are read one by one as what is in a variant. -/
inductive ReadsAll : List ContentType → List (Json ν) → List Data → Prop
  | nil : ReadsAll [] [] []
  | cons {type : ContentType} {types : List ContentType} {j : Json ν} {js : List (Json ν)}
      {d : Data} {ds : List Data} (h : read? type j = some d) (hs : ReadsAll types js ds) :
      ReadsAll (type :: types) (j :: js) (d :: ds)

/-- A value holds what is in a variant: nothing as `null`, one thing as its value, and more as an
array. -/
inductive HoldsContents : List ContentType → Json ν → List Data → Prop
  | none : HoldsContents [] .null []
  | one {type : ContentType} {j : Json ν} {d : Data} (h : read? type j = some d) :
      HoldsContents [type] j [d]
  | more {type type' : ContentType} {types : List ContentType} {js : List (Json ν)} {ds : List Data}
      (h : ReadsAll read? (type :: type' :: types) js ds) :
      HoldsContents (type :: type' :: types) (.array js) ds

/-- A value is a variant: the name of one without contents, or an object that holds the contents
under the name and has no other key. -/
inductive Variant.Spells : Variant → Json ν → Data → Prop
  | name (name : String) : Spells ⟨name, []⟩ (.string name) (.variant name [])
  | object {name : String} {contents : List ContentType} {content : Json ν} {ds : List Data}
      (h : HoldsContents read? contents content ds) :
      Spells ⟨name, contents⟩ (.object [(name, content)]) (.variant name ds)

variable {read?}

/-- Of no types nothing is read. -/
theorem readsAll_nil_iff {js : List (Json ν)} {ds : List Data} :
    ReadsAll read? [] js ds ↔ js = [] ∧ ds = [] := by
  constructor
  · rintro ⟨⟩
    exact ⟨rfl, rfl⟩
  · rintro ⟨rfl, rfl⟩
    exact .nil

/-- Of some types the first value is read first. -/
theorem readsAll_cons_iff {type : ContentType} {types : List ContentType} {js : List (Json ν)}
    {ds : List Data} : ReadsAll read? (type :: types) js ds
      ↔ ∃ j js' d ds', js = j :: js' ∧ ds = d :: ds' ∧ read? type j = some d
        ∧ ReadsAll read? types js' ds' := by
  constructor
  · intro h
    cases h with
    | cons h hs => exact ⟨_, _, _, _, rfl, rfl, h, hs⟩
  · rintro ⟨j, js', d, ds', rfl, rfl, h, hs⟩
    exact .cons h hs

/-- `null` holds nothing. -/
theorem holdsContents_nil_iff {j : Json ν} {ds : List Data} :
    HoldsContents read? [] j ds ↔ j = .null ∧ ds = [] := by
  constructor
  · rintro ⟨⟩
    exact ⟨rfl, rfl⟩
  · rintro ⟨rfl, rfl⟩
    exact .none

/-- A value holds one thing. -/
theorem holdsContents_one_iff {type : ContentType} {j : Json ν} {ds : List Data} :
    HoldsContents read? [type] j ds ↔ ∃ d, read? type j = some d ∧ ds = [d] := by
  constructor
  · intro h
    cases h with
    | one h => exact ⟨_, h, rfl⟩
  · rintro ⟨d, h, rfl⟩
    exact .one h

/-- An array holds more things. -/
theorem holdsContents_more_iff {type type' : ContentType} {types : List ContentType} {j : Json ν}
    {ds : List Data} : HoldsContents read? (type :: type' :: types) j ds
      ↔ ∃ js, j = .array js ∧ ReadsAll read? (type :: type' :: types) js ds := by
  constructor
  · intro h
    cases h with
    | more h => exact ⟨_, rfl, h⟩
  · rintro ⟨js, rfl, h⟩
    exact .more h

end

namespace Codec

/-- What is expected of a library for JSON, as far as values go. -/
structure Laws (C : Codec) : Prop where
  /-- A finite number is written as a number. -/
  write_float {x : Binary64} (h : x.isFinite = true) : C.write (.float x) = .number (C.ofFloat x)
  /-- A number that is not finite is written as `null`. -/
  write_not_finite {x : Binary64} (h : x.isFinite = false) : C.write (.float x) = .null
  /-- A variant without contents is written as its name. -/
  write_none (name : String) : C.write (.variant name []) = .string name
  /-- One thing in a variant is written under the name of the variant. -/
  write_one (name : String) (d : Data) :
    C.write (.variant name [d]) = .object [(name, C.write d)]
  /-- More things in a variant are written as an array. -/
  write_more (name : String) (d d' : Data) (ds : List Data) :
    C.write (.variant name (d :: d' :: ds))
      = .object [(name, .array ((d :: d' :: ds).map C.write))]
  /-- Settings in the order of their keys are written under these. -/
  write_record {settings : List (String × Setting)} (h : settings.Pairwise fun s s' => s.1 < s'.1) :
    C.write (.record settings) = .object (settings.map fun s => (s.1, s.2.toJson C.ofLimit))
  /-- The number that is written for a finite number has that as its nearest number. -/
  nearest_ofFloat {x : Binary64} (h : x.isFinite = true) : (C.decimal (C.ofFloat x)).nearest = x
  /-- A number is read as the nearest one of the format, unless that is infinite. -/
  readFloat?_number (n : C.Number) : C.readFloat? (.number n)
    = if (C.decimal n).nearest.isFinite then some (C.decimal n).nearest else none
  /-- What is no number is not read as one. -/
  readFloat?_of_ne {j : Json C.Number} (h : ∀ n, j ≠ .number n) : C.readFloat? j = none
  /-- A setting that is written is read back. -/
  readSetting?_toJson {s : Setting} (h : s.Fits) :
    C.readSetting? s.type (s.toJson C.ofLimit) = some s
  /-- A value is read just if it is a variant that is declared. -/
  read?_choice {type : TypeName} {variants : List Variant}
    (h : type.declaration = .choice variants) {j : Json C.Number} {d : Data} :
    C.read? type j = some d ↔ ∃ v ∈ variants, v.Spells C.readContent? j d
  /-- A record is read from the keys of its fields, whatever other keys there are. -/
  read?_object {type : TypeName} {fields : List SettingField}
    (h : type.declaration = .record fields) {entries : List (String × Json C.Number)}
    (honce : ∀ f ∈ fields, (entries.map Prod.fst).count f.key ≤ 1) :
    C.read? type (.object entries) = (fields.mapM fun f =>
      SettingField.readAt? C.readSetting? f (entries.lookup f.key)).map .record
  /-- A record is read from an array of its first settings. -/
  read?_array {type : TypeName} {fields : List SettingField}
    (h : type.declaration = .record fields) {elements : List (Json C.Number)}
    (hlength : elements.length ≤ fields.length) :
    C.read? type (.array elements) = (fields.zipIdx.mapM fun f =>
      SettingField.readAt? C.readSetting? f.1 elements[f.2]?).map .record

/-- What is expected of a library for JSON, as far as texts go: a text is read as the value that was
written, however deep that is, and with limits as they are. -/
structure TextLaws (C : Codec) : Prop where
  readText?_print (type : TypeName) {j : Json C.Number} (h : j.Unambiguous) :
    C.readText? type (C.print j) = C.read? type (j.map C.reread)
  reread_ofLimit {n : Nat} (h : n < Config.limitBound) : C.reread (C.ofLimit n) = C.ofLimit n

/-- Finite numbers are written in texts so that they are read back. -/
def FloatsReadBack (C : Codec) : Prop :=
  ∀ x : Binary64, x.isFinite = true → (C.decimal (C.reread (C.ofFloat x))).nearest = x

end Codec

/-! ## The library with which programs run -/

namespace Json

/-- Types are declared with variants of different names. -/
theorem nodup_variants {type : TypeName} {variants : List Variant}
    (h : type.declaration = .choice variants) : (variants.map Variant.name).Nodup := by
  cases type with
  | operator =>
      obtain rfl := Declaration.choice.inj h
      decide
  | expr =>
      obtain rfl := Declaration.choice.inj h
      decide
  | config => cases h

/-- A declared variant is found by its name. -/
theorem variant?_eq_some_iff {variants : List Variant} (h : (variants.map Variant.name).Nodup)
    {name : String} {v : Variant} :
    variant? variants name = some v ↔ v ∈ variants ∧ v.name = name := by
  constructor
  · intro hfind
    exact ⟨List.mem_of_find?_eq_some hfind, by simpa using List.find?_some hfind⟩
  · rintro ⟨hv, rfl⟩
    have hsome : (variant? variants v.name).isSome :=
      List.find?_isSome.2 ⟨v, hv, decide_eq_true rfl⟩
    obtain ⟨v', hv'⟩ := Option.isSome_iff_exists.1 hsome
    have hname : v'.name = v.name := by simpa using List.find?_some hv'
    rw [hv', List.inj_on_of_nodup_map h (List.mem_of_find?_eq_some hv') hv hname]

/-- Values are read one by one. -/
theorem readAll?_eq_some_iff {types : List ContentType} {js : List Json} {ds : List Data} :
    readAll? types js = some ds ↔ ReadsAll read? types js ds := by
  constructor
  · intro h
    induction types generalizing js ds with
    | nil =>
        cases js with
        | nil =>
            obtain rfl := Option.some.inj h
            exact .nil
        | cons j js => cases h
    | cons type types ih =>
        cases js with
        | nil => cases h
        | cons j js =>
            rw [readAll?] at h
            split at h
            · next d ds' hd hds =>
              obtain rfl := Option.some.inj h
              exact .cons hd (ih hds)
            · cases h
  · intro h
    induction h with
    | nil => rfl
    | cons h _ ih => rw [readAll?, h, ih]

/-- A variant that is read under its name in an object holds its contents there. -/
theorem read?_object_eq_some_iff {type : TypeName} {variants : List Variant} {v : Variant}
    (h : type.declaration = .choice variants) (hv : variant? variants v.name = some v)
    {content : Json} {d : Data} :
    read? (.declared type) (.object [(v.name, content)]) = some d
      ↔ ∃ ds, HoldsContents read? v.contents content ds ∧ d = .variant v.name ds := by
  obtain ⟨name, contents⟩ := v
  rw [read?.eq_def]
  simp only [h, hv]
  rcases contents with _ | ⟨type', _ | ⟨type'', types⟩⟩
  · simp only [holdsContents_nil_iff]
    cases content <;> simp [eq_comm]
  · simp [holdsContents_one_iff, eq_comm]
  · simp only [holdsContents_more_iff, ← readAll?_eq_some_iff]
    cases content <;> simp [eq_comm]

/-- **A value is read just if it is a variant that is declared.** -/
theorem read?_choice {type : TypeName} {variants : List Variant}
    (h : type.declaration = .choice variants) {j : Json} {d : Data} :
    read? (.declared type) j = some d ↔ ∃ v ∈ variants, v.Spells read? j d := by
  have hnames := nodup_variants h
  constructor
  · intro hread
    by_cases hobject : ∃ name content, j = .object [(name, content)]
    · obtain ⟨name, content, rfl⟩ := hobject
      cases hfind : variant? variants name with
      | none =>
          rw [read?.eq_8 _ _ _ _ h (by simp [hfind]) (by simp [hfind]) (by simp [hfind])
            (by simp [hfind])] at hread
          cases hread
      | some v =>
          obtain ⟨hv, rfl⟩ := (variant?_eq_some_iff hnames).1 hfind
          obtain ⟨ds, hholds, rfl⟩ := (read?_object_eq_some_iff h hfind).1 hread
          exact ⟨v, hv, .object hholds⟩
    · by_cases hname : ∃ name, j = .string name
      · obtain ⟨name, rfl⟩ := hname
        rw [read?.eq_3 _ _ _ h] at hread
        split at hread
        · next name' hfind =>
          obtain ⟨hv, rfl⟩ := (variant?_eq_some_iff hnames).1 hfind
          obtain rfl := Option.some.inj hread
          exact ⟨_, hv, .name _⟩
        · cases hread
      · rw [read?.eq_9 _ _ _ h (fun name hj => hname ⟨name, hj⟩)
          fun name content hj => hobject ⟨name, content, hj⟩] at hread
        cases hread
  · rintro ⟨v, hv, hspells⟩
    have hfind := (variant?_eq_some_iff hnames).2 ⟨hv, rfl⟩
    cases hspells with
    | name name => rw [read?.eq_3 _ _ _ h, hfind]
    | object hholds => exact (read?_object_eq_some_iff h hfind).2 ⟨_, hholds, rfl⟩

/-- The library reads what is in a variant as it reads values. -/
theorem readContent?_codec : codec.readContent? = read? := by
  funext type j
  cases type with
  | float => exact (read?.eq_1 j).symm
  | declared type => rfl

/-- The text of a number is read as that number, but for its spelling. -/
theorem reread_codec : codec.reread = Number.respelled := by
  funext n
  have hread := number?_text n endsValue_nil
  rw [List.append_nil] at hread
  change ((number? n.text).map Prod.fst).getD n = _
  rw [hread]
  rfl

/-- Data are written one by one. -/
theorem ofContents_eq (ds : List Data) : ofContents ds = ds.map ofData := by
  induction ds with
  | nil => rfl
  | cons d ds ih => rw [ofContents, ih, List.map_cons]

/-- A setting that is written is read back. -/
theorem readSetting?_toJson {s : Setting} (h : s.Fits) :
    readSetting? s.type (s.toJson (.whole ·)) = some s := by
  cases s with
  | limit n =>
      have hfits : 0 ≤ (n : Int) ∧ (n : Int) < Config.limitBound :=
        ⟨Int.natCast_nonneg n, Int.ofNat_lt.2 h⟩
      rw [Setting.type, Setting.toJson, readSetting?, if_pos hfits, Int.toNat_natCast]
  | flag b => rfl

/-- **The library keeps the laws of values.** -/
theorem codec_laws : codec.Laws where
  write_float h := if_pos h
  write_not_finite h := if_neg (Bool.eq_false_iff.1 h)
  write_none name := rfl
  write_one name d := rfl
  write_more name d d' ds := by
    have hall := ofContents_eq (d :: d' :: ds)
    exact congrArg (fun js => object [(name, array js)]) hall
  write_record _ := rfl
  nearest_ofFloat h := Binary64.nearest_shortest h
  readFloat?_number n := rfl
  readFloat?_of_ne {j} h := by
    cases j with
    | number n => exact absurd rfl (h n)
    | _ => rfl
  readSetting?_toJson h := readSetting?_toJson h
  read?_choice h := by
    rw [readContent?_codec]
    exact read?_choice h
  read?_object {_ _} h {_} _ := read?.eq_2 _ _ _ h
  read?_array {_ _} h {_} hlength := (read?.eq_2 _ _ _ h).trans (if_pos hlength)

/-- **The library keeps the laws of texts.** -/
theorem codec_textLaws : codec.TextLaws where
  readText?_print type {j} h := by
    rw [reread_codec]
    exact congrArg (Option.bind · (read? (.declared type))) (ofText?_text h)
  reread_ofLimit h := by
    rw [reread_codec]
    rfl

/-- The library reads finite numbers back from their texts. -/
theorem codec_floatsReadBack : codec.FloatsReadBack := by
  intro x hx
  rw [reread_codec]
  have hback := Binary64.nearest_shortest hx
  exact (Number.nearest_respelled (n := .decimal x.shortest) (hback.symm ▸ hx)).trans hback

end Json

end InfixCalc
