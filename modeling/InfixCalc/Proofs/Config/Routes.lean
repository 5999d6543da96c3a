import Mathlib
import InfixCalc.Config.Json
import InfixCalc.Proofs.Codec.Laws
import InfixCalc.Proofs.Config.Environment

/-!
# Settings on their routes

Settings come as an object, as an array or from the variables of an environment. On each of these
routes some fields may be given and the others left out: what is given arrives as it is, also the
greatest limit, and what is left out has its default. All of this holds with each library for JSON
and each library for settings in layers that keep their laws.

Main statements: the text of a variable gives the setting that it spells out (`SpellsOut.gives`),
whatever the case of the letters in its name (`SpelledFor.namedFor`); and all routes lead to the
same settings (`settings_arrive_on_all_routes`).
-/

namespace InfixCalc

namespace Config

/-! ## Settings of some fields -/

/-- The limits of settings fit into words. -/
structure Bounded (c : Config) : Prop where
  maxDepth : c.maxDepth < limitBound
  maxTreeDepth : c.maxTreeDepth < limitBound

/-- The settings that agree with others on some fields, and are the defaults elsewhere. -/
def only (c : Config) (F : Finset Field) : Config where
  maxDepth := if .maxDepth ∈ F then c.maxDepth else default.maxDepth
  maxTreeDepth := if .maxTreeDepth ∈ F then c.maxTreeDepth else default.maxTreeDepth
  strictDelimiters :=
    if .strictDelimiters ∈ F then c.strictDelimiters else default.strictDelimiters

variable {c : Config} {F : Finset Field} {f : Field}

/-- On all fields settings agree with themselves. -/
theorem only_all (c : Config) : c.only Field.all.toFinset = c := rfl

/-- On the fields on which they agree, the settings are the same. -/
theorem setting_only (c : Config) (F : Finset Field) (f : Field) :
    f.setting (c.only F) = if f ∈ F then f.setting c else f.setting default := by
  cases f <;> exact apply_ite _ _ _ _

/-- A field for which settings agree has the same setting. -/
theorem setting_only_of_mem (hf : f ∈ F) : f.setting (c.only F) = f.setting c := by
  rw [setting_only, if_pos hf]

/-- A field for which they need not agree has its default. -/
theorem setting_only_of_not_mem (hf : f ∉ F) : f.setting (c.only F) = f.setting default := by
  rw [setting_only, if_neg hf]

/-- Each key belongs to one field. -/
theorem key_injective : Function.Injective Field.key := by
  intro f g
  cases f <;> cases g <;> decide

/-- Every field is among all fields. -/
theorem Field.mem_all (f : Field) : f ∈ Field.all := by
  cases f <;> decide

/-- The settings of bounded settings fit into words. -/
theorem Bounded.fits (hc : c.Bounded) (f : Field) : (f.setting c).Fits := by
  cases f with
  | maxDepth => exact hc.maxDepth
  | maxTreeDepth => exact hc.maxTreeDepth
  | strictDelimiters => trivial

/-- Settings that agree with bounded ones, or are the defaults, are bounded. -/
theorem Bounded.only (hc : c.Bounded) (F : Finset Field) : (c.only F).Bounded := by
  constructor
  · rw [Config.only]
    dsimp only
    split
    · exact hc.maxDepth
    · decide
  · rw [Config.only]
    dsimp only
    split
    · exact hc.maxTreeDepth
    · decide

end Config

/-! ## Objects and arrays -/

namespace Codec

open Config

variable {C : Codec} {c : Config} {F : Finset Field}

/-- What settings have for a field, as a value. -/
def jsonOf (C : Codec) (c : Config) (f : Field) : Json C.Number := (f.setting c).toJson C.ofLimit

/-- The entries of an object for what settings have for some fields, in the order of the fields. -/
def entriesFor (C : Codec) (c : Config) (F : Finset Field) : List (String × Json C.Number) :=
  (Field.all.filter (· ∈ F)).map fun f => (f.key, C.jsonOf c f)

/-- Settings are stored with all of their fields. -/
theorem Laws.toJson_config (hC : C.Laws) (c : Config) :
    C.toJson c = .object (C.entriesFor c Field.all.toFinset) :=
  hC.write_record (pairwise_toSettings c)

/-- The entries for some fields are those of each of these fields. -/
theorem mem_entriesFor {key : String} {j : Json C.Number} :
    (key, j) ∈ C.entriesFor c F ↔ ∃ f ∈ F, key = f.key ∧ j = C.jsonOf c f := by
  simp [entriesFor, Field.mem_all, eq_comm]

/-- Each key stands in the entries once at most. -/
theorem nodup_keys_entriesFor (C : Codec) (c : Config) (F : Finset Field) :
    ((C.entriesFor c F).map Prod.fst).Nodup := by
  have hkeys : (Field.all.map Field.key).Nodup := by decide
  rw [entriesFor, List.map_map]
  exact hkeys.sublist (List.filter_sublist.map Field.key)

section

variable {fields others : List (String × Json C.Number)}
  (hperm : fields.Perm (C.entriesFor c F ++ others))
  (hothers : ∀ entry ∈ others, ∀ f, entry.1 ≠ Field.key f)

include hperm hothers

/-- The key of a field stands in the entries once at most. -/
theorem count_key_le_one (f : Field) : (fields.map Prod.fst).count f.key ≤ 1 := by
  have hnone : (others.map Prod.fst).count f.key = 0 := by
    rw [List.count_eq_zero]
    intro hmem
    obtain ⟨entry, hentry, hkey⟩ := List.mem_map.1 hmem
    exact hothers entry hentry f hkey
  rw [(hperm.map Prod.fst).count_eq, List.map_append, List.count_append, hnone, Nat.add_zero]
  exact List.nodup_iff_count_le_one.1 (nodup_keys_entriesFor C c F) f.key

/-- Under the key of a field stands what settings have for it if it is given, and nothing if not. -/
theorem lookup_key (f : Field) :
    fields.lookup f.key = if f ∈ F then some (C.jsonOf c f) else none := by
  have hmem : ∀ j, (f.key, j) ∈ fields ↔ f ∈ F ∧ j = C.jsonOf c f := by
    intro j
    rw [hperm.mem_iff, List.mem_append, mem_entriesFor]
    constructor
    · rintro (⟨g, hg, hkey, rfl⟩ | hother)
      · obtain rfl := key_injective hkey
        exact ⟨hg, rfl⟩
      · exact absurd rfl (hothers _ hother f)
    · rintro ⟨hf, rfl⟩
      exact .inl ⟨f, hf, rfl, rfl⟩
  cases hlookup : fields.lookup f.key with
  | none =>
      rw [if_neg]
      intro hf
      have hentry := List.lookup_eq_none_iff.1 hlookup _ ((hmem (C.jsonOf c f)).2 ⟨hf, rfl⟩)
      simp at hentry
  | some j =>
      obtain ⟨l₁, l₂, rfl, -⟩ := List.lookup_eq_some_iff.1 hlookup
      obtain ⟨hf, rfl⟩ := (hmem j).1 (by simp)
      rw [if_pos hf]

end

/-- A field is read where it is given, and else it has its default. -/
theorem Laws.readAt?_jsonOf (hC : C.Laws) (hc : c.Bounded) (f : Field) :
    f.declared.readAt? C.readSetting? (if f ∈ F then some (C.jsonOf c f) else none)
      = some (f.key, f.setting (c.only F)) := by
  split
  · next hf =>
    rw [SettingField.readAt?, ← f.type_setting c, jsonOf, hC.readSetting?_toJson (hc.fits f),
      setting_only_of_mem hf]
    rfl
  · next hf =>
    rw [SettingField.readAt?, setting_only_of_not_mem hf]
    rfl

/-- **An object** with the settings of some fields, in any order and among other names, is read as
the settings that agree on these fields. -/
theorem Laws.ofJson?_object (hC : C.Laws) (hc : c.Bounded)
    {fields others : List (String × Json C.Number)}
    (hperm : fields.Perm (C.entriesFor c F ++ others))
    (hothers : ∀ entry ∈ others, ∀ f, entry.1 ≠ Field.key f) :
    C.ofJson? (.object fields) = some (c.only F) := by
  have honce : ∀ f ∈ Field.all.map Field.declared, (fields.map Prod.fst).count f.key ≤ 1 := by
    intro field hfield
    obtain ⟨f, -, rfl⟩ := List.mem_map.1 hfield
    exact count_key_le_one hperm hothers f
  have hread : ∀ f : Field, f.declared.readAt? C.readSetting? (fields.lookup f.key)
      = some (f.key, f.setting (c.only F)) := by
    intro f
    rw [lookup_key hperm hothers]
    exact hC.readAt?_jsonOf hc f
  have hall := @mapM_readAt?_declared _ C.readSetting? (fun key => fields.lookup key) _ hread
  have hdata := @Laws.read?_object C hC .config _ rfl fields honce
  rw [hall] at hdata
  exact congrArg (Option.bind · Config.ofData?) hdata

/-- In an array of the settings of the first fields each of these stands at its place. -/
theorem getElem?_firstFields {k i : Nat} {f : Field} (hf : Field.all[i]? = some f) :
    ((Field.all.take k).map (C.jsonOf c))[i]?
      = if f ∈ (Field.all.take k).toFinset then some (C.jsonOf c f) else none := by
  have hnodup : Field.all.Nodup := by decide
  have hmem : f ∈ (Field.all.take k).toFinset ↔ i < k := by
    rw [List.mem_toFinset, List.mem_iff_getElem?]
    constructor
    · rintro ⟨j, hj⟩
      rw [List.getElem?_take] at hj
      split at hj
      · next hjk =>
        have hlength : j < Field.all.length := (List.getElem?_eq_some_iff.1 hj).1
        rwa [← (List.getElem?_inj hlength hnodup).1 (hj.trans hf.symm)]
      · cases hj
    · intro hik
      exact ⟨i, by rw [List.getElem?_take, if_pos hik, hf]⟩
  rw [List.getElem?_map, List.getElem?_take]
  simp only [hmem]
  split
  · rw [hf, Option.map_some]
  · rfl

/-- Fields that are each read from their place as what settings have for them are read as these
settings. -/
theorem mapM_zipIdx_declared {β : Type} {read? : SettingType → β → Option Setting}
    {found : Nat → Option β} (h : ∀ (i : Nat) (f : Field), Field.all[i]? = some f →
      f.declared.readAt? read? (found i) = some (f.key, f.setting c)) :
    ((Field.all.map Field.declared).zipIdx.mapM fun f => f.1.readAt? read? (found f.2))
      = some c.toSettings := by
  rw [Field.all]
  simp only [List.map_cons, List.map_nil, List.zipIdx_cons, List.zipIdx_nil, List.mapM_cons,
    List.mapM_nil, h 0 .maxDepth rfl, h 1 .maxTreeDepth rfl, h 2 .strictDelimiters rfl]
  rfl

/-- **An array** of the settings of the first fields is read as the settings that agree on these. -/
theorem Laws.ofJson?_array (hC : C.Laws) (hc : c.Bounded) (k : Nat) :
    C.ofJson? (.array ((Field.all.take k).map (C.jsonOf c)))
      = some (c.only (Field.all.take k).toFinset) := by
  have hlength : ((Field.all.take k).map (C.jsonOf c)).length
      ≤ (Field.all.map Field.declared).length := by
    simp only [List.length_map, List.length_take]
    exact Nat.min_le_right _ _
  have hread : ∀ (i : Nat) (f : Field), Field.all[i]? = some f →
      f.declared.readAt? C.readSetting? ((Field.all.take k).map (C.jsonOf c))[i]?
        = some (f.key, f.setting (c.only (Field.all.take k).toFinset)) := by
    intro i f hf
    rw [getElem?_firstFields hf]
    exact hC.readAt?_jsonOf hc f
  have hall := @mapM_zipIdx_declared _ _ C.readSetting?
    (fun i => ((Field.all.take k).map (C.jsonOf c))[i]?) hread
  have hdata := @Laws.read?_array C hC .config _ rfl _ hlength
  rw [hall] at hdata
  exact congrArg (Option.bind · Config.ofData?) hdata

/-- The entries for some fields are these alone. -/
theorem perm_entriesFor_append_nil (C : Codec) (c : Config) (F : Finset Field) :
    (C.entriesFor c F).Perm (C.entriesFor c F ++ []) := by
  rw [List.append_nil]

/-- What is stored is read back. -/
theorem Laws.ofJson?_toJson_config (hC : C.Laws) (hc : c.Bounded) :
    C.ofJson? (C.toJson c) = some c := by
  have hperm := perm_entriesFor_append_nil C c Field.all.toFinset
  rw [hC.toJson_config, hC.ofJson?_object hc hperm (by simp), only_all]

/-! ## Texts of objects -/

/-- What settings have for a field is read from a text as it is. -/
theorem TextLaws.map_jsonOf (htexts : C.TextLaws) (hc : c.Bounded) (f : Field) :
    (C.jsonOf c f).map C.reread = C.jsonOf c f := by
  have hfits := hc.fits f
  rw [jsonOf]
  revert hfits
  cases f.setting c with
  | limit n => exact fun hfits => congrArg Json.number (htexts.reread_ofLimit hfits)
  | flag b => exact fun _ => rfl

/-- The text of an object with the settings of some fields is read as the object is. -/
theorem Laws.ofStored?_object (hC : C.Laws) (htexts : C.TextLaws) (hc : c.Bounded)
    {fields others : List (String × Json C.Number)}
    (hperm : fields.Perm (C.entriesFor c F ++ others))
    (hothers : ∀ entry ∈ others, ∀ f, entry.1 ≠ Field.key f)
    (h : (Json.object fields).Unambiguous) :
    C.ofStored? (C.print (.object fields)) = some (c.only F) := by
  have hentries : (C.entriesFor c F).map (fun entry => (entry.1, entry.2.map C.reread))
      = C.entriesFor c F := by
    rw [entriesFor, List.map_map]
    exact List.map_congr_left fun f _ => congrArg (f.key, ·) (htexts.map_jsonOf hc f)
  have hmapped := hperm.map fun entry => (entry.1, entry.2.map C.reread)
  rw [List.map_append, hentries] at hmapped
  have hothers' : ∀ entry ∈ others.map fun entry => (entry.1, entry.2.map C.reread),
      ∀ f, entry.1 ≠ Field.key f := by
    rw [List.forall_mem_map]
    exact hothers
  have hread := hC.ofJson?_object hc hmapped hothers'
  rw [← Json.map_object] at hread
  exact (congrArg (Option.bind · Config.ofData?) (htexts.readText?_print .config h)).trans hread

/-- What is stored as a text is read back. -/
theorem Laws.ofStored?_stored_config (hC : C.Laws) (htexts : C.TextLaws) (hc : c.Bounded) :
    C.ofStored? (C.stored c) = some c := by
  have hperm := perm_entriesFor_append_nil C c Field.all.toFinset
  have hunambiguous : (Json.object (C.entriesFor c Field.all.toFinset)).Unambiguous := by
    refine .object (nodup_keys_entriesFor C c _) ?_
    rintro ⟨key, j⟩ hentry
    obtain ⟨f, -, -, rfl⟩ := mem_entriesFor.1 hentry
    cases f
    · exact .number _
    · exact .number _
    · exact .bool _
  rw [stored, hC.toJson_config, hC.ofStored?_object htexts hc hperm (by simp) hunambiguous,
    only_all]

end Codec

namespace Config

variable {c : Config} {F : Finset Field} {f : Field}

/-! ## Names of variables -/

/-- A name is that of a setting's variable, in any case of its letters. -/
def SpelledFor (name : String) (f : Field) : Prop :=
  lower name.toList = lower (variablePrefix.toList ++ f.key.toList)

instance (name : String) (f : Field) : Decidable (SpelledFor name f) :=
  inferInstanceAs (Decidable (lower _ = lower _))

/-- No blank stands in a name of a setting's variable. -/
theorem SpelledFor.not_isBlank {name : String} (h : SpelledFor name f) :
    ∀ c ∈ name.toList, Text.isBlank c = false := by
  have hspelled : (lower (variablePrefix.toList ++ f.key.toList)).any Text.isBlank = false := by
    cases f <;> decide +kernel
  intro c hc
  by_contra hblank
  rw [Bool.not_eq_false] at hblank
  have hlower : c.toLower ∈ lower name.toList := List.mem_map_of_mem hc
  rw [Text.toLower_of_isBlank hblank, h] at hlower
  exact List.any_eq_false.1 hspelled c hlower hblank

/-- In lower case such a name is the prefix and the setting's key. -/
theorem SpelledFor.lower_eq {name : String} (h : SpelledFor name f) :
    lower (name.toList.take variablePrefix.toList.length) = lower variablePrefix.toList
      ∧ lower (name.toList.drop variablePrefix.toList.length) = f.key.toList := by
  have hkey : lower f.key.toList = f.key.toList := by cases f <;> decide +kernel
  have hwhole : name.toList.map Char.toLower = lower variablePrefix.toList ++ f.key.toList := by
    rw [← hkey, lower, lower, ← List.map_append]
    exact h
  constructor
  · rw [lower, List.map_take, hwhole, List.take_left' (by simp [lower])]
  · rw [lower, List.map_drop, hwhole, List.drop_left' (by simp [lower])]

/-- **The case of letters does not matter** for the setting for which a variable is named. -/
theorem SpelledFor.namedFor {name : String} (h : SpelledFor name f) : NamedFor name f := by
  have hkey : f.key.toList ≠ [] ∧ '.' ∉ f.key.toList := by cases f <;> decide +kernel
  obtain ⟨hfirst, hrest⟩ := h.lower_eq
  have hsplit := List.take_append_drop variablePrefix.toList.length name.toList
  have hne : name.toList.drop variablePrefix.toList.length ≠ [] := by
    intro hnil
    rw [hnil] at hrest
    exact hkey.1 hrest.symm
  -- Without blanks, trimming leaves the name and what stands behind its prefix as they are.
  have htrim : ∀ s : List Char, s ≠ [] → (∀ a ∈ s, a ∈ name.toList) → Text.trim s = s := by
    intro s hs hmem
    simpa using @Text.trim_append [] s [] (by simp) hs (fun a ha => h.not_isBlank a (hmem a ha))
      (by simp)
  refine ⟨name.toList.take variablePrefix.toList.length,
    name.toList.drop variablePrefix.toList.length, ?_, hfirst, ?_, by simp, by simpa using hkey⟩
  · rw [hsplit]
    refine htrim _ ?_ fun a ha => ha
    intro hnil
    rw [hnil] at hne
    exact hne List.drop_nil
  · rw [htrim _ hne fun a ha => List.mem_of_mem_drop ha, hrest]
    simp

/-! ## Texts of variables -/

/-- A word says what settings have for a field: a limit in decimal digits, a flag by its word. -/
def Says (word : List Char) (c : Config) : Field → Prop
  | .maxDepth => DigitsOf word c.maxDepth
  | .maxTreeDepth => DigitsOf word c.maxTreeDepth
  | .strictDelimiters => word = flagWord c.strictDelimiters

/-- A text spells out what settings have for a field: it is a word that says so, with blanks of the
ASCII range around it. -/
def SpellsOut (text : String) (c : Config) (f : Field) : Prop :=
  ∃ word, Surrounds text word ∧ Says word c f

namespace Layering

variable {L : Layering}

/-- **A text gives the setting that it spells out**, also where that is the greatest limit. -/
theorem WordLaws.gives (hwords : L.WordLaws) (hc : c.Bounded) {text : String}
    (h : SpellsOut text c f) : Gives (L.parse text) f c := by
  obtain ⟨word, htext, hspells⟩ := h
  cases f with
  | maxDepth => exact hwords.parse_digits htext hspells hc.maxDepth
  | maxTreeDepth => exact hwords.parse_digits htext hspells hc.maxTreeDepth
  | strictDelimiters => exact hwords.parse_flag (hspells ▸ htext)

end Layering

/-! ## Environments -/

/-- An environment holds the settings of some fields, and of no others: each of them has a variable
with its name, and each variable that concerns a field has the name of one of them and a text that
spells out its setting. -/
structure Holds (env : Environment) (c : Config) (F : Finset Field) : Prop where
  present : ∀ f ∈ F, ∃ var ∈ env, SpelledFor var.1 f
  faithful : ∀ var ∈ env, ∀ f, Concerns var.1 f →
    f ∈ F ∧ SpelledFor var.1 f ∧ SpellsOut var.2 c f

/-- What gives a setting is no table. -/
theorem Gives.ne_table {value : Value} (h : Gives value f c) (entries : List (String × Value)) :
    value ≠ .table entries := by
  rintro rfl
  cases f <;> cases h

/-- What gives a limit that fits into a word fits into one. -/
theorem Gives.fitsWord {value : Value} (hc : c.Bounded) (h : Gives value f c) : FitsWord value := by
  intro n hn
  have hfits := hc.fits f
  rw [Gives] at h
  revert hfits h
  cases f.setting c with
  | limit m =>
      intro h hfits
      obtain rfl := Option.some.inj (h.symm.trans hn)
      exact Int.ofNat_lt.2 hfits
  | flag b =>
      intro h _
      rw [h] at hn
      cases hn

namespace Layering

variable {L : Layering} {env : Environment}

/-- Variables that all give a field the same setting leave a value that gives it under the key. -/
theorem Laws.exists_underKey (hL : L.Laws) (hne : env ≠ [])
    (h : ∀ var ∈ env, NamedFor var.1 f ∧ Gives (L.parse var.2) f c) :
    ∃ value, L.underKey env f = some value ∧ Gives value f c := by
  induction env using List.reverseRecOn with
  | nil => exact absurd rfl hne
  | append_singleton env var ih =>
      obtain ⟨hnamed, hgives⟩ := h var (by simp)
      refine ⟨L.parse var.2, ?_, hgives⟩
      have hoverlay : L.underKey (env ++ [var]) f
          = some (L.laid (L.underKey env f) (L.parse var.2)) := by
        rw [underKey, List.foldl_append]
        simp only [List.foldl_cons, List.foldl_nil, overlay, namedFor_iff.1 hnamed, if_true, nest]
        rfl
      rw [hoverlay]
      rcases eq_or_ne env [] with rfl | hne'
      · rfl
      · obtain ⟨value, hvalue, hgives'⟩ :=
          ih hne' fun other hother => h other (List.mem_append_left _ hother)
        rw [hvalue]
        exact congrArg some (hL.merge_of_not_table (.inl hgives'.ne_table))

/-- What stands under the key of a field gives its setting, if the environment holds it, and the
default if not. -/
theorem Laws.gives_valueAt (hL : L.Laws) (hwords : L.WordLaws) (hc : c.Bounded) (h : Holds env c F)
    (f : Field) : Gives (L.valueAt env f) f (c.only F) := by
  rw [valueAt, ← underKey_filter]
  by_cases hf : f ∈ F
  · obtain ⟨var, hvar, hspelled⟩ := h.present f hf
    have hconcerns : Concerns var.1 f := ⟨[], hspelled.namedFor⟩
    have hne : (env.filter fun var => Concerns var.1 f) ≠ [] :=
      List.ne_nil_of_mem (List.mem_filter.2 ⟨hvar, decide_eq_true hconcerns⟩)
    obtain ⟨value, hvalue, hgives⟩ := hL.exists_underKey hne fun other hother => by
      obtain ⟨hmem, hconcerns'⟩ := List.mem_filter.1 hother
      obtain ⟨-, hspelled', hspells⟩ := h.faithful other hmem f (of_decide_eq_true hconcerns')
      exact ⟨hspelled'.namedFor, hwords.gives hc hspells⟩
    rw [hvalue, Option.getD_some, Gives, setting_only_of_mem hf]
    exact hgives
  · have hnone : (env.filter fun var => Concerns var.1 f) = [] := by
      rw [List.filter_eq_nil_iff]
      intro var hvar hconcerns
      exact hf (h.faithful var hvar f (of_decide_eq_true hconcerns)).1
    rw [hnone]
    exact gives_toValue_iff.2 (setting_only_of_not_mem hf)

/-- **An environment** that holds the settings of some fields is read as the settings that agree on
these. -/
theorem Laws.fromEnvironment_of_holds (hL : L.Laws) (hwords : L.WordLaws) (hc : c.Bounded)
    (h : Holds env c F) : L.fromEnvironment env = .ok (c.only F) := by
  have hgives := hL.gives_valueAt hwords hc h
  exact hL.fromEnvironment_eq_ok (fun f => (hgives f).fitsWord (hc.only F)) hgives

end Layering

/-! ## All routes -/

/-- **Settings arrive as they are on every route.** Of the libraries it is expected that they keep
their laws. Of settings with limits that fit into words some fields are given: an object with these,
in any order and among any other names, an environment that holds them, in any case of the letters
and with any blanks around the values, and, where they are the first ones, an array of them are each
read as the settings that agree on these fields and are the defaults elsewhere. What is stored is
read back, as a value and as a text. -/
theorem settings_arrive_on_all_routes {C : Codec} {L : Layering} (hC : C.Laws) (htexts : C.TextLaws)
    (hL : L.Laws) (hwords : L.WordLaws) (c : Config) (hc : c.Bounded) (F : Finset Field) :
    (∀ fields others : List (String × Json C.Number),
      fields.Perm (C.entriesFor c F ++ others) →
      (∀ entry ∈ others, ∀ f, entry.1 ≠ Field.key f) →
      C.ofJson? (.object fields) = some (c.only F)
        ∧ ((Json.object fields).Unambiguous →
          C.ofStored? (C.print (.object fields)) = some (c.only F)))
      ∧ (∀ env, Holds env c F → L.fromEnvironment env = .ok (c.only F))
      ∧ (∀ k, F = (Field.all.take k).toFinset →
        C.ofJson? (.array ((Field.all.take k).map (C.jsonOf c))) = some (c.only F))
      ∧ C.ofJson? (C.toJson c) = some c
      ∧ C.ofStored? (C.stored c) = some c := by
  refine ⟨fun fields others hperm hothers => ⟨hC.ofJson?_object hc hperm hothers,
    hC.ofStored?_object htexts hc hperm hothers⟩,
    fun env => hL.fromEnvironment_of_holds hwords hc, ?_, hC.ofJson?_toJson_config hc,
    hC.ofStored?_stored_config htexts hc⟩
  rintro k rfl
  exact hC.ofJson?_array hc k

/-- The greatest limit, given with a flag but without the other limit, in an object with a name that
is no setting and in an environment with odd letters, zeros, blanks and another variable. -/
theorem settings_arrive_on_all_routes_greatest :
    let C := Json.codec
    let L := layering
    let c : Config := ⟨18446744073709551615, 7, true⟩
    let fields : List (String × Json) := [("strict_delimiters", .bool true), ("comment", .null),
      ("max_depth", .number (.whole 18446744073709551615))]
    let env : Environment := [("expression_Max_Depth", " 018446744073709551615\n"),
      ("PATH", "/bin"), ("EXPRESSION_STRICT_DELIMITERS", "\ttrue")]
    C.Laws ∧ C.TextLaws ∧ L.Laws ∧ L.WordLaws ∧ c.Bounded
      ∧ C.ofJson? (.object fields) = some (⟨18446744073709551615, 4096, true⟩ : Config)
      ∧ L.fromEnvironment env = .ok ⟨18446744073709551615, 4096, true⟩
      ∧ C.ofJson? (.array [.number (.whole 18446744073709551615)])
        = some (⟨18446744073709551615, 4096, false⟩ : Config) := by
  intro C L c fields env
  have hc : c.Bounded := ⟨by decide, by decide⟩
  have hdepthName : SpelledFor "expression_Max_Depth" .maxDepth := by decide +kernel
  have hstrictName : SpelledFor "EXPRESSION_STRICT_DELIMITERS" .strictDelimiters := by
    decide +kernel
  have hdepth : ∀ f, Concerns "expression_Max_Depth" f → f = .maxDepth := by
    intro f
    cases f <;> decide +kernel
  have hother : ∀ f, ¬ Concerns "PATH" f := by
    intro f
    cases f <;> decide +kernel
  have hstrict : ∀ f, Concerns "EXPRESSION_STRICT_DELIMITERS" f → f = .strictDelimiters := by
    intro f
    cases f <;> decide +kernel
  obtain ⟨hobject, henv, -⟩ := settings_arrive_on_all_routes Json.codec_laws Json.codec_textLaws
    layering_laws layering_wordLaws c hc {.maxDepth, .strictDelimiters}
  obtain ⟨-, -, harray, -⟩ := settings_arrive_on_all_routes Json.codec_laws Json.codec_textLaws
    layering_laws layering_wordLaws c hc {.maxDepth}
  refine ⟨Json.codec_laws, Json.codec_textLaws, layering_laws, layering_wordLaws, hc,
    (hobject fields [("comment", .null)] ?_ ?_).1, henv env ⟨?_, ?_⟩, harray 1 rfl⟩
  · exact @List.perm_append_comm (String × Json) [("strict_delimiters", .bool true),
      ("comment", .null)] [("max_depth", .number (.whole 18446744073709551615))]
  · intro entry hentry f
    obtain rfl := List.mem_singleton.1 hentry
    cases f <;> decide
  · intro f hf
    simp only [Finset.mem_insert, Finset.mem_singleton] at hf
    rcases hf with rfl | rfl
    · exact ⟨_, .head _, hdepthName⟩
    · exact ⟨_, .tail _ (.tail _ (.head _)), hstrictName⟩
  · intro var hvar f hconcerns
    simp only [env, List.mem_cons, List.not_mem_nil, or_false] at hvar
    rcases hvar with rfl | rfl | rfl
    · obtain rfl := hdepth f hconcerns
      have hdigits : DigitsOf "018446744073709551615".toList 18446744073709551615 :=
        ⟨by decide, List.all_eq_true.1 (by decide), by decide⟩
      exact ⟨by simp, hdepthName, _, ⟨[' '], ['\n'], rfl, by simp [Text.isAsciiBlank],
        by simp [Text.isAsciiBlank]⟩, hdigits⟩
    · exact absurd hconcerns (hother f)
    · obtain rfl := hstrict f hconcerns
      exact ⟨by simp, hstrictName, _, ⟨['\t'], [], rfl, by simp [Text.isAsciiBlank], by simp⟩, rfl⟩

end Config

end InfixCalc
