import Mathlib
import InfixCalc.Proofs.Config.Layers

/-!
# The settings of an environment

A setting is read from what stands under its key. Where at most one variable concerns it, that is
what the variable says: a table, if its name goes on behind the setting's key, and the value of its
text if not, which for a limit has to be a whole number of sixty-four bits.

Main statements: settings are read just if what stands under each key gives them
(`Layering.Laws.fromEnvironment_eq_ok`), and else the first field for which it gives none is the
error (`Layering.Laws.fromEnvironment_eq_error`); so, where at most one variable concerns each
setting, the outcome is read off these variables (`settings_of_environment`).
-/

namespace InfixCalc

namespace Config

open Value

/-! ## Fields -/

/-- What settings have for a field is of its type. -/
theorem Field.type_setting (f : Field) (c : Config) : (f.setting c).type = f.declared.type := by
  cases f <;> rfl

/-- A setting of a field's type is what some settings have for that field. -/
theorem Field.exists_setting {f : Field} {s : Setting} (h : s.type = f.declared.type) :
    ∃ c, f.setting c = s := by
  cases s with
  | limit n =>
      cases f with
      | strictDelimiters => cases h
      | _ => exact ⟨⟨n, n, false⟩, rfl⟩
  | flag b =>
      cases f with
      | strictDelimiters => exact ⟨⟨0, 0, b⟩, rfl⟩
      | _ => cases h

/-- What settings have for each field alone makes up settings that have it for all. -/
theorem exists_forall_setting (c : Field → Config) :
    ∃ c', ∀ f : Field, f.setting c' = f.setting (c f) := by
  refine ⟨⟨(c .maxDepth).maxDepth, (c .maxTreeDepth).maxTreeDepth,
    (c .strictDelimiters).strictDelimiters⟩, fun f => ?_⟩
  cases f <;> rfl

/-- Settings are made up of what they have for the fields. -/
theorem ofSettings_toSettings (c : Config) : ofSettings c.toSettings = c := rfl

/-- The fields are declared in the order of their keys. -/
theorem pairwise_declared :
    (Field.all.map Field.declared).Pairwise fun f g => f.key < g.key := by decide

/-- Settings are in the order of their keys. -/
theorem pairwise_toSettings (c : Config) : c.toSettings.Pairwise fun s s' => s.1 < s'.1 := by
  have hkeys := List.pairwise_map.1 pairwise_declared
  exact List.pairwise_map.2 hkeys

/-- Fields that are each read as what settings have for them are read as these settings. -/
theorem mapM_readAt?_declared {β : Type} {read? : SettingType → β → Option Setting}
    {found : String → Option β} {c : Config}
    (h : ∀ f : Field, f.declared.readAt? read? (found f.key) = some (f.key, f.setting c)) :
    ((Field.all.map Field.declared).mapM fun f => f.readAt? read? (found f.key))
      = some c.toSettings := by
  have hall : ∀ fields : List Field,
      ((fields.map Field.declared).mapM fun f => f.readAt? read? (found f.key))
        = some (fields.map fun f => (f.key, f.setting c)) := by
    intro fields
    induction fields with
    | nil => rfl
    | cons f fields ih =>
        have hf : f.declared.readAt? read? (found f.declared.key) = some (f.key, f.setting c) := h f
        rw [List.map_cons, List.mapM_cons, hf, ih]
        rfl
  exact hall Field.all

/-! ## Reading a setting -/

/-- A value gives settings what they have for a field: a limit as a whole number, a flag as a flag.
-/
def Gives (value : Value) (f : Field) (c : Config) : Prop := (f.setting c).GivenBy value

/-- A value fits a field: a limit has to be a whole number of sixty-four bits that is not negative,
a flag a flag. -/
def Fits (value : Value) : Field → Prop
  | .maxDepth | .maxTreeDepth => ∃ n : Int, value.integer? = some n ∧ 0 ≤ n ∧ n < limitBound
  | .strictDelimiters => ∃ b, value = .flag b

/-- A value gives some settings what they have for a field just if it gives a setting of its type.
-/
theorem exists_gives_iff_exists_setting {value : Value} {f : Field} :
    (∃ c, Gives value f c) ↔ ∃ s : Setting, s.type = f.declared.type ∧ s.GivenBy value := by
  constructor
  · rintro ⟨c, hc⟩
    exact ⟨_, f.type_setting c, hc⟩
  · rintro ⟨s, htype, hgiven⟩
    obtain ⟨c, rfl⟩ := Field.exists_setting htype
    exact ⟨c, hgiven⟩

/-- A value gives a limit just if it is a whole number of sixty-four bits that is not negative. -/
theorem exists_limit_givenBy_iff {value : Value} (hvalue : FitsWord value) :
    (∃ s : Setting, s.type = .limit ∧ s.GivenBy value)
      ↔ ∃ n : Int, value.integer? = some n ∧ 0 ≤ n ∧ n < limitBound := by
  constructor
  · rintro ⟨_ | _, htype, hgiven⟩
    · exact ⟨_, hgiven, Int.natCast_nonneg _, hvalue _ hgiven⟩
    · cases htype
  · rintro ⟨n, hn, hpos, -⟩
    exact ⟨.limit n.toNat, rfl, hn.trans (congrArg some (Int.toNat_of_nonneg hpos).symm)⟩

/-- A value gives a flag just if it is one. -/
theorem exists_flag_givenBy_iff {value : Value} :
    (∃ s : Setting, s.type = .flag ∧ s.GivenBy value) ↔ ∃ b, value = .flag b := by
  constructor
  · rintro ⟨_ | b, htype, hgiven⟩
    · cases htype
    · exact ⟨b, hgiven⟩
  · rintro ⟨b, rfl⟩
    exact ⟨.flag b, rfl, rfl⟩

/-- A value that fits a word gives some settings what they have for a field just if it fits that
field. -/
theorem exists_gives_iff {value : Value} (hvalue : FitsWord value) {f : Field} :
    (∃ c, Gives value f c) ↔ Fits value f := by
  rw [exists_gives_iff_exists_setting]
  cases f with
  | strictDelimiters => exact exists_flag_givenBy_iff
  | _ => exact exists_limit_givenBy_iff hvalue

/-- A setting as a value gives nothing else. -/
theorem gives_toValue_iff {c c' : Config} {f : Field} :
    Gives (f.setting c').toValue f c ↔ f.setting c = f.setting c' := by
  cases f <;> simp [Gives, Field.setting, Setting.GivenBy, Setting.toValue, Value.integer?, eq_comm]

/-- Behind a key stands a table, which gives nothing. -/
theorem gives_nest_iff {value : Value} {below : List String} {f : Field} {c : Config} :
    Gives (nest value below) f c ↔ below = [] ∧ Gives value f c := by
  cases below with
  | nil => simp [nest]
  | cons key keys =>
      have htable : ∀ entries, ¬ Gives (.table entries) f c := by
        intro entries
        cases f <;> simp [Gives, Field.setting, Setting.GivenBy, Value.integer?]
      simp [nest, htable]

/-- A table fits a word, so that a value inside tables does so if it does itself. -/
theorem fitsWord_nest {value : Value} (h : FitsWord value) (below : List String) :
    FitsWord (nest value below) := by
  cases below with
  | nil => exact h
  | cons key keys =>
      intro n hn
      cases hn

/-- A default fits a word. -/
theorem fitsWord_default (f : Field) : FitsWord (f.setting default).toValue := by
  intro n hn
  cases f with
  | strictDelimiters => cases hn
  | _ =>
      obtain rfl := Option.some.inj hn
      decide

namespace Layering

variable {L : Layering} {env : Environment} {c : Config} {f : Field} {value : Value}

/-- A field is read from the values that give it. -/
theorem Laws.readAt?_eq_some_iff (hL : L.Laws) (hvalue : FitsWord value) :
    f.declared.readAt? L.setting? (some value) = some (f.key, f.setting c) ↔ Gives value f c := by
  have hsetting := @Laws.setting?_eq_some_iff L hL f.declared.type value (f.setting c) hvalue
  rw [and_iff_right (f.type_setting c)] at hsetting
  rw [Gives, ← hsetting, SettingField.readAt?, Option.map_eq_some_iff]
  constructor
  · rintro ⟨s, hs, heq⟩
    rwa [(Prod.mk.inj heq).2] at hs
  · intro hs
    exact ⟨_, hs, rfl⟩

/-- A field is not read from the values that give nothing. -/
theorem Laws.readAt?_eq_none_iff (hL : L.Laws) (hvalue : FitsWord value) :
    f.declared.readAt? L.setting? (some value) = none ↔ ¬ ∃ c, Gives value f c := by
  rw [SettingField.readAt?, Option.map_eq_none_iff, Option.eq_none_iff_forall_ne_some,
    exists_gives_iff_exists_setting, not_exists]
  exact forall_congr' fun s => not_congr (hL.setting?_eq_some_iff hvalue)

/-! ## Settings read from an environment -/

/-- Settings are read if what stands under each key gives them. -/
theorem Laws.fromEnvironment_eq_ok (hL : L.Laws) (hvalue : ∀ f, FitsWord (L.valueAt env f))
    (h : ∀ f, Gives (L.valueAt env f) f c) : L.fromEnvironment env = .ok c := by
  obtain ⟨found, htable, hfound⟩ := hL.exists_merged_isTable env
  have hread : ∀ f : Field,
      f.declared.readAt? L.setting? (found f.key) = some (f.key, f.setting c) := by
    intro f
    rw [hfound, hL.readAt?_eq_some_iff (hvalue f)]
    exact h f
  rw [fromEnvironment, hL.extract_eq_ok htable (mapM_readAt?_declared hread)]
  exact congrArg Except.ok (ofSettings_toSettings c)

/-- The first field for which what stands under its key gives nothing is the error. -/
theorem Laws.fromEnvironment_eq_error (hL : L.Laws) (hvalue : ∀ f, FitsWord (L.valueAt env f))
    {before after : List Field} (hall : Field.all = before ++ f :: after)
    (hbefore : ∀ g ∈ before, ∃ c, Gives (L.valueAt env g) g c)
    (hf : ¬ ∃ c, Gives (L.valueAt env f) f c) :
    ∃ e, L.fromEnvironment env = .error e ∧ L.key e = f.key := by
  obtain ⟨found, htable, hfound⟩ := hL.exists_merged_isTable env
  have hfields : Field.all.map Field.declared
      = before.map Field.declared ++ f.declared :: after.map Field.declared := by
    rw [hall, List.map_append, List.map_cons]
  have hkeys := pairwise_declared
  rw [hfields] at hkeys
  have hread : ∀ g ∈ before.map Field.declared,
      (g.readAt? L.setting? (found g.key)).isSome := by
    intro field hfield
    obtain ⟨g, hg, rfl⟩ := List.mem_map.1 hfield
    obtain ⟨c, hc⟩ := hbefore g hg
    have hsome := (hL.readAt?_eq_some_iff (hvalue g)).2 hc
    rw [← hfound] at hsome
    exact Option.isSome_of_eq_some hsome
  have hnone : f.declared.readAt? L.setting? (found f.declared.key) = none := by
    have hnone := (hL.readAt?_eq_none_iff (hvalue f)).2 hf
    rwa [← hfound] at hnone
  obtain ⟨e, he, hkey⟩ := hL.extract_eq_error htable hkeys hread hnone
  refine ⟨e, ?_, hkey⟩
  rw [fromEnvironment, hfields, he]
  rfl

/-- Settings are read just if what stands under each key gives them. -/
theorem Laws.fromEnvironment_eq_ok_iff (hL : L.Laws) (hvalue : ∀ f, FitsWord (L.valueAt env f)) :
    L.fromEnvironment env = .ok c ↔ ∀ f, Gives (L.valueAt env f) f c := by
  refine ⟨fun hok => ?_, hL.fromEnvironment_eq_ok hvalue⟩
  by_cases hgives : ∀ f, ∃ c, Gives (L.valueAt env f) f c
  · choose each heach using hgives
    obtain ⟨c', hc'⟩ := exists_forall_setting each
    have hgives : ∀ f, Gives (L.valueAt env f) f c' := by
      intro f
      rw [Gives, hc']
      exact heach f
    obtain rfl := Except.ok.inj (hok.symm.trans (hL.fromEnvironment_eq_ok hvalue hgives))
    exact hgives
  · -- Of the fields for which nothing is given there is a first one.
    classical
    have hbad : (Field.all.find? fun f => ¬ ∃ c, Gives (L.valueAt env f) f c).isSome := by
      obtain ⟨f, hf⟩ := not_forall.1 hgives
      have hmem : f ∈ Field.all := by cases f <;> decide
      exact List.find?_isSome.2 ⟨f, hmem, decide_eq_true hf⟩
    obtain ⟨f, hfind⟩ := Option.isSome_iff_exists.1 hbad
    obtain ⟨hf, before, after, hall, hbefore⟩ := List.find?_eq_some_iff_append.1 hfind
    obtain ⟨e, he, -⟩ := hL.fromEnvironment_eq_error hvalue hall
      (fun g hg => by simpa using hbefore g hg) (of_decide_eq_true hf)
    rw [he] at hok
    cases hok

/-! ## What a single variable gives -/

/-- Where at most one variable concerns a setting, either none does and nothing stands under its
key, or one does and its value stands there. -/
theorem underKey_cases (h : env.countP (fun var => Concerns var.1 f) ≤ 1) :
    ((∀ var ∈ env, ¬ Concerns var.1 f) ∧ L.underKey env f = none)
      ∨ ∃ var ∈ env, ∃ below, path? variablePrefix.toList var.1 = some (f.key :: below)
        ∧ (∀ other ∈ env, Concerns other.1 f → other = var)
        ∧ L.underKey env f = some (nest (L.parse var.2) below) := by
  rw [List.countP_eq_length_filter] at h
  rw [← underKey_filter]
  have hmem : ∀ var, var ∈ (env.filter fun var => Concerns var.1 f)
      ↔ var ∈ env ∧ Concerns var.1 f := by simp
  rcases hfilter : env.filter fun var => Concerns var.1 f with _ | ⟨var, _ | ⟨other, more⟩⟩
  · refine .inl ⟨fun var hvar hconcerns => ?_, by rw [hfilter]; rfl⟩
    exact List.not_mem_nil (hfilter ▸ (hmem var).2 ⟨hvar, hconcerns⟩)
  · obtain ⟨hvar, hconcerns⟩ := (hmem var).1 (hfilter ▸ List.mem_singleton_self var)
    obtain ⟨below, hpath⟩ := concerns_iff.1 hconcerns
    refine .inr ⟨var, hvar, below, hpath, fun other hother hconcerns' => ?_, ?_⟩
    · exact List.mem_singleton.1 (hfilter ▸ (hmem other).2 ⟨hother, hconcerns'⟩)
    · rw [hfilter]
      simp only [underKey, List.foldl_cons, List.foldl_nil, overlay, hpath, if_pos, laid]
  · rw [hfilter] at h
    simp at h

/-- Where at most one variable concerns a setting, what stands under its key fits a word. -/
theorem Laws.fitsWord_valueAt (hL : L.Laws) (h : env.countP (fun var => Concerns var.1 f) ≤ 1) :
    FitsWord (L.valueAt env f) := by
  rcases @underKey_cases L env f h with ⟨-, hunder⟩ | ⟨var, -, below, -, -, hunder⟩
  · rw [valueAt, hunder]
    exact fitsWord_default f
  · rw [valueAt, hunder]
    exact fitsWord_nest (hL.parse_fitsWord var.2) below

/-- Settings carry an environment in a field: they have there what the variable that concerns it
says, and the default if none does. -/
structure Carries (L : Layering) (env : Environment) (c : Config) (f : Field) : Prop where
  given : ∀ var ∈ env, Concerns var.1 f → NamedFor var.1 f ∧ Gives (L.parse var.2) f c
  otherwise : (∀ var ∈ env, ¬ Concerns var.1 f) → f.setting c = f.setting default

/-- An environment is good for a field: a variable that concerns it has the field's name and a value
that fits. -/
def Good (L : Layering) (env : Environment) (f : Field) : Prop :=
  ∀ var ∈ env, Concerns var.1 f → NamedFor var.1 f ∧ Fits (L.parse var.2) f

/-- Where at most one variable concerns a setting, what stands under its key gives what that
variable says, or else the default. -/
theorem gives_valueAt_iff (h : env.countP (fun var => Concerns var.1 f) ≤ 1) :
    Gives (L.valueAt env f) f c ↔ L.Carries env c f := by
  rcases underKey_cases h with ⟨hnone, hunder⟩ | ⟨var, hvar, below, hpath, hunique, hunder⟩
  · rw [valueAt, hunder, Option.getD_none, gives_toValue_iff]
    exact ⟨fun hc => ⟨fun var hvar hconcerns => absurd hconcerns (hnone var hvar), fun _ => hc⟩,
      fun hcarries => hcarries.otherwise hnone⟩
  · have hconcerns : Concerns var.1 f := concerns_iff.2 ⟨below, hpath⟩
    rw [valueAt, hunder, Option.getD_some, gives_nest_iff]
    constructor
    · rintro ⟨rfl, hgives⟩
      refine ⟨fun other hother hconcerns' => ?_, fun hnone => absurd hconcerns (hnone var hvar)⟩
      rw [hunique other hother hconcerns']
      exact ⟨namedFor_iff.2 hpath, hgives⟩
    · intro hcarries
      obtain ⟨hnamed, hgives⟩ := hcarries.given var hvar hconcerns
      rw [namedFor_iff, hpath] at hnamed
      exact ⟨by simpa using hnamed, hgives⟩

/-- Where at most one variable concerns a setting, some settings carry it just if it is good. -/
theorem Laws.exists_carries_iff (hL : L.Laws) (h : env.countP (fun var => Concerns var.1 f) ≤ 1) :
    (∃ c, L.Carries env c f) ↔ L.Good env f := by
  constructor
  · rintro ⟨c, hcarries⟩ var hvar hconcerns
    obtain ⟨hnamed, hgives⟩ := hcarries.given var hvar hconcerns
    exact ⟨hnamed, (exists_gives_iff (hL.parse_fitsWord var.2)).1 ⟨c, hgives⟩⟩
  · intro hgood
    rcases @underKey_cases L env f h with ⟨hnone, -⟩ | ⟨var, hvar, below, hpath, hunique, -⟩
    · exact ⟨default, fun var hvar hconcerns => absurd hconcerns (hnone var hvar), fun _ => rfl⟩
    · have hconcerns : Concerns var.1 f := concerns_iff.2 ⟨below, hpath⟩
      obtain ⟨hnamed, hfits⟩ := hgood var hvar hconcerns
      obtain ⟨c, hgives⟩ := (exists_gives_iff (hL.parse_fitsWord var.2)).2 hfits
      refine ⟨c, fun other hother hconcerns' => ?_, fun hnone => absurd hconcerns (hnone var hvar)⟩
      rw [hunique other hother hconcerns']
      exact ⟨hnamed, hgives⟩

/-! ## The settings of an environment -/

/-- Where at most one variable concerns each setting, the outcome is the settings that carry the
environment. -/
theorem Laws.fromEnvironment_eq_ok_iff_carries (hL : L.Laws)
    (h : ∀ f : Field, env.countP (fun var => Concerns var.1 f) ≤ 1) :
    L.fromEnvironment env = .ok c ↔ ∀ f, L.Carries env c f := by
  rw [hL.fromEnvironment_eq_ok_iff fun f => hL.fitsWord_valueAt (h f)]
  exact forall_congr' fun f => gives_valueAt_iff (h f)

/-- Where at most one variable concerns each setting, settings are read just if it is good for each.
-/
theorem Laws.exists_fromEnvironment_eq_ok_iff (hL : L.Laws)
    (h : ∀ f : Field, env.countP (fun var => Concerns var.1 f) ≤ 1) :
    (∃ c, L.fromEnvironment env = .ok c) ↔ ∀ f, L.Good env f := by
  simp only [hL.fromEnvironment_eq_ok_iff_carries h]
  constructor
  · rintro ⟨c, hc⟩ f
    exact (hL.exists_carries_iff (h f)).1 ⟨c, hc f⟩
  · intro hgood
    choose each heach using fun f => (hL.exists_carries_iff (h f)).2 (hgood f)
    obtain ⟨c, hc⟩ := exists_forall_setting each
    refine ⟨c, fun f => ⟨fun var hvar hconcerns => ?_, fun hnone => ?_⟩⟩
    · rw [Gives, hc]
      exact (heach f).given var hvar hconcerns
    · rw [hc]
      exact (heach f).otherwise hnone

/-- Where at most one variable concerns each setting, the first bad one is the error. -/
theorem Laws.fromEnvironment_eq_error_of_not_good (hL : L.Laws)
    (h : ∀ f : Field, env.countP (fun var => Concerns var.1 f) ≤ 1) {before after : List Field}
    (hall : Field.all = before ++ f :: after) (hbefore : ∀ g ∈ before, L.Good env g)
    (hf : ¬ L.Good env f) : ∃ e, L.fromEnvironment env = .error e ∧ L.key e = f.key := by
  have hgives : ∀ g, (∃ c, Gives (L.valueAt env g) g c) ↔ L.Good env g := by
    intro g
    rw [← hL.exists_carries_iff (h g)]
    exact exists_congr fun c => gives_valueAt_iff (h g)
  exact hL.fromEnvironment_eq_error (fun g => hL.fitsWord_valueAt (h g)) hall
    (fun g hg => (hgives g).2 (hbefore g hg)) (mt (hgives f).1 hf)

end Layering

/-- **How the variables of an environment make up the settings.** Of a library it is expected that
it keeps the laws. The outcome then depends, for each setting, on the variables that concern it, in
their order: a variable that concerns no setting may come or go, and two neighbours that concern
different settings may change places. Where at most one variable concerns each setting, settings are
read just if each of these variables has the name of its setting and a value that fits; they have
these values, and the defaults elsewhere. If not, the first bad setting is the error, whatever the
later ones are. -/
theorem settings_of_environment {L : Layering} (hL : L.Laws) :
    (∀ env env' : Environment,
        (∀ f, (env.filter fun var => Concerns var.1 f)
          = env'.filter fun var => Concerns var.1 f) →
        L.fromEnvironment env = L.fromEnvironment env')
      ∧ (∀ (before after : Environment) (var : String × String), (∀ f, ¬ Concerns var.1 f) →
        L.fromEnvironment (before ++ var :: after) = L.fromEnvironment (before ++ after))
      ∧ (∀ (before after : Environment) (var other : String × String),
        (∀ f, ¬ (Concerns var.1 f ∧ Concerns other.1 f)) →
        L.fromEnvironment (before ++ var :: other :: after)
          = L.fromEnvironment (before ++ other :: var :: after))
      ∧ ∀ env : Environment, (∀ f : Field, env.countP (fun var => Concerns var.1 f) ≤ 1) →
        ((∃ c, L.fromEnvironment env = .ok c) ↔ ∀ f, L.Good env f)
          ∧ (∀ c, L.fromEnvironment env = .ok c → ∀ f, L.Carries env c f)
          ∧ (∀ before f after, Field.all = before ++ f :: after →
            (∀ g ∈ before, L.Good env g) → ¬ L.Good env f →
            ∃ e, L.fromEnvironment env = .error e ∧ L.key e = f.key) := by
  refine ⟨fun env env' => hL.fromEnvironment_congr, ?_, ?_, ?_⟩
  · intro before after var hvar
    apply hL.fromEnvironment_congr
    intro f
    simp [hvar f]
  · intro before after var other hdiffer
    apply hL.fromEnvironment_congr
    intro f
    by_cases hvar : Concerns var.1 f
    · have hother : ¬ Concerns other.1 f := fun h => hdiffer f ⟨hvar, h⟩
      simp [List.filter_cons, hother]
    · simp [List.filter_cons, hvar]
  · intro env h
    refine ⟨hL.exists_fromEnvironment_eq_ok_iff h,
      fun c => (hL.fromEnvironment_eq_ok_iff_carries h).1, ?_⟩
    intro before f after hall hbefore hf
    exact hL.fromEnvironment_eq_error_of_not_good h hall hbefore hf

/-- A limit and a flag, with a variable of another name between them: the flag is the error where it
is a number, whatever stands between, and without it the limit counts, with two defaults. -/
theorem settings_of_environment_limit_and_flag :
    let L := layering
    let limit : String × String := (" expression_Max_Depth", "8")
    let flag : String × String := ("EXPRESSION_STRICT_DELIMITERS", "1")
    let other : String × String := ("EXPRESSION_MAX_DEPTH.", "9")
    L.Laws ∧ L.fromEnvironment [flag, other, limit] = L.fromEnvironment [limit, flag]
      ∧ (∃ e, L.fromEnvironment [limit, flag] = .error e ∧ L.key e = "strict_delimiters")
      ∧ L.fromEnvironment [limit, other] = .ok ⟨8, 4096, false⟩ := by
  intro L limit flag other
  have height : L.parse limit.2 = .unsigned 8 := by
    change Value.ofText "8" = .unsigned 8
    cbv
  have hone : L.parse flag.2 = .unsigned 1 := by
    change Value.ofText "1" = .unsigned 1
    cbv
  have hnamed : NamedFor limit.1 .maxDepth := by decide +kernel
  have hlimit : ∀ f, Concerns limit.1 f ↔ f = .maxDepth := by
    intro f
    cases f <;> decide +kernel
  have hflag : ∀ f, Concerns flag.1 f ↔ f = .strictDelimiters := by
    intro f
    cases f <;> decide +kernel
  have hother : ∀ f, ¬ Concerns other.1 f := by
    intro f
    cases f <;> decide +kernel
  have hgood : ∀ (var : String × String) (f : Field), ¬ Concerns var.1 f →
      L.Good [limit, var] f := by
    intro var f hvar v hv hconcerns
    rcases List.mem_pair.1 hv with hv | hv
    · rw [hv] at hconcerns ⊢
      obtain rfl := (hlimit f).1 hconcerns
      exact ⟨hnamed, 8, by rw [height]; rfl, by decide, by decide⟩
    · rw [hv] at hconcerns
      exact absurd hconcerns hvar
  obtain ⟨-, hdrop, hswap, houtcome⟩ := settings_of_environment layering_laws
  refine ⟨layering_laws, ?_, ?_, ?_⟩
  · have hdiffer : ∀ f, ¬ (Concerns flag.1 f ∧ Concerns limit.1 f) := by
      intro f
      cases f <;> simp [hlimit, hflag]
    exact (hdrop [flag] [limit] other hother).trans (hswap [] [] flag limit hdiffer)
  · have hcount : ∀ f : Field, [limit, flag].countP (fun var => Concerns var.1 f) ≤ 1 := by
      intro f
      cases f <;> simp [hlimit, hflag]
    have hlimits : ∀ f ∈ [Field.maxDepth, .maxTreeDepth], L.Good [limit, flag] f := by
      intro f hf
      apply hgood flag f
      rw [hflag]
      rintro rfl
      simp at hf
    have hbad : ¬ L.Good [limit, flag] .strictDelimiters := by
      intro h
      obtain ⟨-, b, hb⟩ := h flag (by simp) ((hflag _).2 rfl)
      rw [hone] at hb
      cases hb
    exact (houtcome _ hcount).2.2 _ .strictDelimiters [] rfl hlimits hbad
  · have hcount : ∀ f : Field, [limit, other].countP (fun var => Concerns var.1 f) ≤ 1 := by
      intro f
      cases f <;> simp [hlimit, hother]
    obtain ⟨hok, hcarries, -⟩ := houtcome _ hcount
    obtain ⟨c, hc⟩ := hok.2 fun f => hgood other f (hother f)
    have hdefault : ∀ f : Field, f ≠ .maxDepth → f.setting c = f.setting default := by
      intro f hf
      apply (hcarries c hc f).otherwise
      simp [hlimit, hother, hf]
    have hdepth := ((hcarries c hc .maxDepth).given limit (by simp) ((hlimit _).2 rfl)).2
    rw [height] at hdepth
    have hmaxDepth : 8 = c.maxDepth := Int.ofNat.inj (Option.some.inj hdepth)
    have hmaxTreeDepth := Setting.limit.inj (hdefault .maxTreeDepth (by decide))
    have hstrict := Setting.flag.inj (hdefault .strictDelimiters (by decide))
    obtain ⟨maxDepth, maxTreeDepth, strictDelimiters⟩ := c
    dsimp only at hmaxDepth hmaxTreeDepth hstrict
    rw [hc, ← hmaxDepth, hmaxTreeDepth, hstrict]
    rfl

end Config

end InfixCalc
