import Mathlib
import InfixCalc.Proofs.Config.Names
import InfixCalc.Proofs.Config.Words

/-!
# The laws of libraries for settings in layers

What is expected of a library for settings in layers, one law for each thing that it does. A
variable has its value at the end of the keys to which its name leads; tables are merged key by key,
and of other values the upper one counts; fields are read from what stands under their keys and from
nothing else, and the first that is refused is the error.

Main statements: the library with which programs run keeps these laws (`layering_laws`), and reads
words as is expected (`layering_wordLaws`).
-/

namespace InfixCalc

/-- A value gives a setting: a whole number the limit that it is, and a flag itself. -/
def Setting.GivenBy (value : Config.Value) : Setting → Prop
  | limit n => value.integer? = some (n : Int)
  | flag b => value = .flag b

namespace Config

open Value

/-! ## Laws -/

/-- A value is no whole number of more than sixty-four bits. -/
def FitsWord (value : Value) : Prop := ∀ n, value.integer? = some n → n < limitBound

/-- A value is a table in which these values stand under the keys. -/
def IsTable (value : Value) (found : String → Option Value) : Prop :=
  ∃ entries, value = .table entries ∧ (entries.map Prod.fst).Nodup
    ∧ ∀ key, entries.lookup key = found key

/-- In a table nothing else stands under the keys. -/
theorem IsTable.congr {value : Value} {found found' : String → Option Value}
    (htable : IsTable value found) (h : ∀ key, found key = found' key) : IsTable value found' := by
  obtain ⟨entries, rfl, hnodup, hfound⟩ := htable
  exact ⟨entries, rfl, hnodup, fun key => (hfound key).trans (h key)⟩

namespace Layering

/-- What stands under a key when a value is laid over what stood there, if anything did. -/
def laid (L : Layering) : Option Value → Value → Value
  | none, upper => upper
  | some lower, upper => L.merge lower upper

/-- What is expected of a library for settings in layers. -/
structure Laws (L : Layering) : Prop where
  /-- Without variables nothing stands in the layer. -/
  layer_nil (start : String) : IsTable (L.layer start []) fun _ => none
  /-- The layer of a variable is laid over that of the variables before it. -/
  layer_append (start : String) (env : Environment) (var : String × String) :
    L.layer start (env ++ [var]) = L.merge (L.layer start env) (L.layer start [var])
  /-- A variable has its value at the end of the keys to which its name leads. -/
  layer_named {start name : String} {keys : List (List Char)}
    (h : LeadsTo start.toList name keys) (text : String) :
    L.layer start [(name, text)] = nest (L.parse text) (keys.map String.ofList)
  /-- A variable whose name leads to no keys adds nothing. -/
  layer_other {start name : String} (h : ∀ keys, ¬ LeadsTo start.toList name keys)
    (text : String) : IsTable (L.layer start [(name, text)]) fun _ => none
  /-- Settings stand under their keys in their layer. -/
  serialized_isTable {settings : List (String × Setting)} (h : (settings.map Prod.fst).Nodup) :
    IsTable (L.serialized settings) fun key => (settings.lookup key).map Setting.toValue
  /-- Under a key of two tables stands what stands there in the upper one, laid over what stands
  there in the lower one. -/
  merge_isTable {lower upper : Value} {under above : String → Option Value}
    (hlower : IsTable lower under) (hupper : IsTable upper above) :
    IsTable (L.merge lower upper) fun key =>
      match above key with
      | none => under key
      | some value => some (L.laid (under key) value)
  /-- Of values that are not both tables the upper one counts. -/
  merge_of_not_table {lower upper : Value}
    (h : (∀ entries, lower ≠ .table entries) ∨ ∀ entries, upper ≠ .table entries) :
    L.merge lower upper = upper
  /-- A text is read as no whole number of more than sixty-four bits. -/
  parse_fitsWord (text : String) : FitsWord (L.parse text)
  /-- A setting is read from the values that give it. -/
  setting?_eq_some_iff {type : SettingType} {value : Value} {s : Setting} (h : FitsWord value) :
    L.setting? type value = some s ↔ s.type = type ∧ s.GivenBy value
  /-- Fields are read if each of them can be, from what stands under its key. -/
  extract_eq_ok {value : Value} {found : String → Option Value} (htable : IsTable value found)
    {fields : List SettingField} {settings : List (String × Setting)}
    (h : (fields.mapM fun f => f.readAt? L.setting? (found f.key)) = some settings) :
    L.extract fields value = .ok settings
  /-- Of fields in the order of their keys the first that cannot be read is the error. -/
  extract_eq_error {value : Value} {found : String → Option Value} (htable : IsTable value found)
    {before after : List SettingField} {f : SettingField}
    (hkeys : (before ++ f :: after).Pairwise fun g g' => g.key < g'.key)
    (hbefore : ∀ g ∈ before, (g.readAt? L.setting? (found g.key)).isSome)
    (hf : f.readAt? L.setting? (found f.key) = none) :
    ∃ e, L.extract (before ++ f :: after) value = .error e ∧ L.key e = f.key
  /-- What stands under other keys does not matter. -/
  extract_congr {value value' : Value} {found found' : String → Option Value}
    (htable : IsTable value found) (htable' : IsTable value' found') {fields : List SettingField}
    (h : ∀ f ∈ fields, found f.key = found' f.key) :
    L.extract fields value = L.extract fields value'

/-- What is expected of a library for settings in layers, as far as words go. -/
structure WordLaws (L : Layering) : Prop where
  /-- Digits are read as the whole number that they are, if it fits into sixty-four bits. -/
  parse_digits {text : String} {word : List Char} {n : Nat} (htext : Surrounds text word)
    (h : DigitsOf word n) (hn : n < limitBound) : (L.parse text).integer? = some (n : Int)
  /-- The word for a flag is read as that flag. -/
  parse_flag {text : String} {b : Bool} (h : Surrounds text (flagWord b)) : L.parse text = .flag b

end Layering

/-! ## Merging -/

namespace Value

/-- The entries of a table are laid over others one after the other. -/
theorem mergeEntries_cons (lower : List (String × Value)) (entry : String × Value)
    (entries : List (String × Value)) :
    mergeEntries lower (entry :: entries)
      = mergeEntries (put entry.1 (layering.laid (lower.lookup entry.1) entry.2) lower)
        entries := by
  rw [mergeEntries]
  split
  · next under h =>
    rw [h]
    rfl
  · next h =>
    rw [h]
    rfl

/-- A key that is put is among the keys, which otherwise stay as they are. -/
theorem keys_put (key : String) (value : Value) (entries : List (String × Value)) :
    (put key value entries).map Prod.fst
      = if key ∈ entries.map Prod.fst then entries.map Prod.fst
        else entries.map Prod.fst ++ [key] := by
  induction entries with
  | nil => simp [put]
  | cons entry entries ih =>
      by_cases h : entry.1 = key
      · simp [put, h]
      · have h' : key ≠ entry.1 := fun e => h e.symm
        rw [put, if_neg h, List.map_cons, ih]
        simp only [List.map_cons, List.mem_cons, h', false_or]
        split <;> rfl

/-- Keys that differ still differ when one is put among them. -/
theorem nodup_keys_put {key : String} {value : Value} {entries : List (String × Value)}
    (h : (entries.map Prod.fst).Nodup) : ((put key value entries).map Prod.fst).Nodup := by
  rw [keys_put]
  split
  · exact h
  · next hkey => exact List.nodup_append.2 ⟨h, List.nodup_singleton key, by
      rintro a ha b hb rfl
      exact hkey (List.mem_singleton.1 hb ▸ ha)⟩

/-- Keys that differ still differ when a table is laid over theirs. -/
theorem nodup_keys_mergeEntries {lower : List (String × Value)} (upper : List (String × Value))
    (h : (lower.map Prod.fst).Nodup) : ((mergeEntries lower upper).map Prod.fst).Nodup := by
  induction upper generalizing lower with
  | nil =>
      rw [mergeEntries]
      exact h
  | cons entry entries ih =>
      rw [mergeEntries_cons]
      exact ih (nodup_keys_put h)

/-- **Under a key of two tables stands what stands there in the upper one, laid over what stands
there in the lower one.** -/
theorem lookup_mergeEntries {lower upper : List (String × Value)}
    (h : (upper.map Prod.fst).Nodup) (key : String) :
    (mergeEntries lower upper).lookup key
      = match upper.lookup key with
        | none => lower.lookup key
        | some value => some (layering.laid (lower.lookup key) value) := by
  induction upper generalizing lower with
  | nil =>
      rw [mergeEntries]
      rfl
  | cons entry entries ih =>
      rw [List.map_cons, List.nodup_cons] at h
      rw [mergeEntries_cons, ih h.2, List.lookup_cons]
      by_cases hkey : key = entry.1
      · subst hkey
        have hnone : entries.lookup entry.1 = none := by
          rw [List.lookup_eq_none_iff]
          intro e he
          rw [bne_iff_ne]
          intro heq
          exact h.1 (heq ▸ List.mem_map_of_mem he)
        simp only [hnone, lookup_put, beq_self_eq_true]
      · have hbeq : (key == entry.1) = false := beq_eq_false_iff_ne.2 hkey
        simp only [lookup_put_of_ne hkey, hbeq]

end Value

/-- Tables are merged to a table. -/
theorem isTable_merge {lower upper : Value} {under above : String → Option Value}
    (hlower : IsTable lower under) (hupper : IsTable upper above) :
    IsTable (lower.merge upper) fun key =>
      match above key with
      | none => under key
      | some value => some (layering.laid (under key) value) := by
  obtain ⟨lower, rfl, hnodup, hunder⟩ := hlower
  obtain ⟨upper, rfl, hnodup', habove⟩ := hupper
  refine ⟨mergeEntries lower upper, by rw [merge], nodup_keys_mergeEntries upper hnodup, ?_⟩
  intro key
  rw [lookup_mergeEntries hnodup', hunder, habove]

/-! ## Reading a layer -/

/-- A field is read just if what stands there is a setting of its type. -/
theorem toOption_settingFound (f : SettingField) (found : Option Value) :
    (settingFound f found).toOption = f.readAt? layering.setting? found := by
  cases found with
  | none => rfl
  | some value =>
      change _ = (settingOfValue f.type value).toOption.map fun s => (f.key, s)
      rw [settingFound]
      cases settingOfValue f.type value <;> rfl

/-- From a table fields are read by what stands under their keys. -/
theorem extract_eq {value : Value} {found : String → Option Value} (h : IsTable value found)
    (fields : List SettingField) :
    extract fields value = fields.mapM fun f => settingFound f (found f.key) := by
  obtain ⟨entries, rfl, -, hfound⟩ := h
  simp only [extract, entriesOf, hfound]

/-- A field that is not read is the error. -/
theorem exists_settingFound_eq_error {f : SettingField} {found : Option Value}
    (h : f.readAt? layering.setting? found = none) : ∃ m, settingFound f found = .error ⟨f, m⟩ := by
  cases found with
  | none => cases h
  | some value =>
      rw [← toOption_settingFound] at h
      rw [settingFound] at h ⊢
      cases hvalue : settingOfValue f.type value with
      | ok s =>
          rw [hvalue] at h
          cases h
      | error m => exact ⟨m, rfl⟩

/-- A field that is read is read as what stands there. -/
theorem settingFound_eq_ok {f : SettingField} {found : Option Value} {s : String × Setting}
    (h : f.readAt? layering.setting? found = some s) : settingFound f found = .ok s := by
  rw [← toOption_settingFound] at h
  cases hfound : settingFound f found with
  | ok s' =>
      rw [hfound] at h
      exact congrArg Except.ok (Option.some.inj h)
  | error m =>
      rw [hfound] at h
      cases h

/-- Fields are read if each of them can be. -/
theorem mapM_settingFound_eq_ok {found : String → Option Value} {fields : List SettingField}
    {settings : List (String × Setting)}
    (h : (fields.mapM fun f => f.readAt? layering.setting? (found f.key)) = some settings) :
    (fields.mapM fun f => settingFound f (found f.key)) = .ok settings := by
  induction fields generalizing settings with
  | nil =>
      obtain rfl := Option.some.inj h
      rfl
  | cons f fields ih =>
      rw [List.mapM_cons] at h
      obtain ⟨s, hs, h⟩ := Option.bind_eq_some_iff.1 h
      obtain ⟨more, hmore, h⟩ := Option.bind_eq_some_iff.1 h
      obtain rfl := Option.some.inj h
      rw [List.mapM_cons, settingFound_eq_ok hs, ih hmore]
      rfl

/-- The first field that cannot be read is the error. -/
theorem mapM_settingFound_eq_error {found : String → Option Value}
    {before after : List SettingField} {f : SettingField}
    (hbefore : ∀ g ∈ before, (g.readAt? layering.setting? (found g.key)).isSome)
    (hf : f.readAt? layering.setting? (found f.key) = none) :
    ∃ m, ((before ++ f :: after).mapM fun f => settingFound f (found f.key)) = .error ⟨f, m⟩ := by
  induction before with
  | nil =>
      obtain ⟨m, hm⟩ := exists_settingFound_eq_error hf
      refine ⟨m, ?_⟩
      rw [List.nil_append, List.mapM_cons, hm]
      rfl
  | cons g before ih =>
      rw [List.forall_mem_cons] at hbefore
      obtain ⟨s, hs⟩ := Option.isSome_iff_exists.1 hbefore.1
      obtain ⟨m, hm⟩ := ih hbefore.2
      refine ⟨m, ?_⟩
      rw [List.cons_append, List.mapM_cons, settingFound_eq_ok hs, hm]
      rfl

/-- Fields are read from what stands under their keys. -/
theorem mapM_settingFound_congr {found found' : String → Option Value} {fields : List SettingField}
    (h : ∀ f ∈ fields, found f.key = found' f.key) :
    (fields.mapM fun f => settingFound f (found f.key))
      = fields.mapM fun f => settingFound f (found' f.key) := by
  induction fields with
  | nil => rfl
  | cons f fields ih =>
      rw [List.forall_mem_cons] at h
      rw [List.mapM_cons, List.mapM_cons, h.1, ih h.2]

/-! ## The library with which programs run -/

/-- A table that is laid over an empty one stays as it is. -/
theorem merge_nil_nest (value : Value) {keys : List String} (h : keys ≠ []) :
    Value.merge (.table []) (nest value keys) = nest value keys := by
  obtain ⟨key, keys, rfl⟩ := List.exists_cons_of_ne_nil h
  simp [nest, Value.merge, Value.mergeEntries, Value.put]

/-- The layer of a variable alone. -/
theorem layer_singleton (start name text : String) :
    layer start [(name, text)] = layerOf start name text := by
  change Value.merge (.table []) (layerOf start name text) = layerOf start name text
  rw [layerOf]
  split
  · next keys hpath =>
    obtain ⟨-, -, -, -, -, hne, -⟩ := path?_eq_some_iff.1 hpath
    exact merge_nil_nest _ fun hkeys => hne (by rw [hkeys, List.map_nil])
  · rw [Value.merge, Value.mergeEntries]

/-- Under a key of a layer of settings stands the setting of that key. -/
theorem lookup_toValue (settings : List (String × Setting)) (key : String) :
    (settings.map fun s => (s.1, s.2.toValue)).lookup key
      = (settings.lookup key).map Setting.toValue := by
  induction settings with
  | nil => rfl
  | cons s settings ih =>
      rw [List.map_cons, List.lookup_cons, List.lookup_cons, ih]
      cases key == s.1 <;> rfl

/-- Of values that are not both tables the upper one counts. -/
theorem merge_of_not_table {lower upper : Value}
    (h : (∀ entries, lower ≠ .table entries) ∨ ∀ entries, upper ≠ .table entries) :
    lower.merge upper = upper := by
  cases upper with
  | table entries =>
      have hlower := h.resolve_right fun hupper => hupper entries rfl
      cases lower with
      | table under => exact absurd rfl (hlower under)
      | _ => rfl
  | _ => rfl

/-- A setting is read from the values that give it. -/
theorem settingOfValue_iff {type : SettingType} {value : Value} {s : Setting} :
    (settingOfValue type value).toOption = some s ↔ s.type = type ∧ s.GivenBy value := by
  constructor
  · intro h
    rw [settingOfValue.eq_def] at h
    split at h
    · obtain rfl := Option.some.inj h
      exact ⟨rfl, rfl⟩
    · next k =>
      split at h
      · cases h
      · next hpos =>
        obtain rfl := Option.some.inj h
        exact ⟨rfl, congrArg some (Int.toNat_of_nonneg (Int.not_lt.1 hpos)).symm⟩
    · obtain rfl := Option.some.inj h
      exact ⟨rfl, rfl⟩
    · cases h
  · rintro ⟨rfl, h⟩
    cases s with
    | flag b =>
        obtain rfl : value = .flag b := h
        rfl
    | limit n =>
        cases value with
        | unsigned k =>
            obtain rfl : k = n := Int.ofNat.inj (Option.some.inj h)
            rfl
        | signed k =>
            obtain rfl : k = n := Option.some.inj h
            rw [Setting.type, settingOfValue, if_neg (Int.not_lt.2 (Int.natCast_nonneg n)),
              Int.toNat_natCast]
            rfl
        | _ => cases h

/-- **The library keeps the laws.** -/
theorem layering_laws : layering.Laws where
  layer_nil start := ⟨[], rfl, List.nodup_nil, fun key => rfl⟩
  layer_append start env var := by
    have hsingle : layering.layer start [var] = layerOf start var.1 var.2 :=
      layer_singleton start var.1 var.2
    rw [hsingle]
    exact List.foldl_append
  layer_named {start name _} h text := by
    refine (layer_singleton start name text).trans ?_
    rw [layerOf, h.path?_eq]
    rfl
  layer_other {start name} h text := by
    refine ⟨[], (layer_singleton start name text).trans ?_, List.nodup_nil, fun key => rfl⟩
    rw [layerOf, path?_eq_none_iff.2 h]
  serialized_isTable {settings} h :=
    ⟨_, rfl, by rwa [List.map_map], fun key => lookup_toValue settings key⟩
  merge_isTable := isTable_merge
  merge_of_not_table := merge_of_not_table
  parse_fitsWord text _ h := integer?_ofText_lt h
  setting?_eq_some_iff _ := settingOfValue_iff
  extract_eq_ok {_ _} htable {_ _} h := (extract_eq htable _).trans (mapM_settingFound_eq_ok h)
  extract_eq_error {_ _} htable {_ _ _} _ hbefore hf := by
    obtain ⟨m, hm⟩ := mapM_settingFound_eq_error hbefore hf
    exact ⟨_, (extract_eq htable _).trans hm, rfl⟩
  extract_congr {_ _ _ _} htable htable' {_} h :=
    (extract_eq htable _).trans
      ((mapM_settingFound_congr h).trans (extract_eq htable' _).symm)

/-- **The library reads words as is expected.** -/
theorem layering_wordLaws : layering.WordLaws where
  parse_digits htext h hn := congrArg Value.integer? (ofText_digits htext h hn)
  parse_flag h := ofText_flag h

end Config

end InfixCalc
