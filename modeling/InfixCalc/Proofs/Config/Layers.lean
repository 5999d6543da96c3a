import Mathlib
import InfixCalc.Proofs.Config.Laws

/-!
# Layers of variables

The layer of an environment is looked at under one key at a time: what stands there is laid together
from the variables that concern that setting, in their order, and from no others. All of this holds
with each library that keeps the laws of libraries for settings in layers.

Main statements: the layer of an environment has under each key what its variables add there
(`Layering.Laws.layer_isTable`); and the outcome depends on nothing but, for each setting, the
variables that concern it, in their order (`Layering.Laws.fromEnvironment_congr`).
-/

namespace InfixCalc

namespace Config

namespace Layering

variable (L : Layering)

/-! ## Layers -/

/-- What stands under a key when the layer of a variable is laid over what stood there. -/
def overlay (key : String) (found : Option Value) (var : String × String) : Option Value :=
  match path? variablePrefix.toList var.1 with
  | some (first :: below) =>
    if first = key then some (L.laid found (nest (L.parse var.2) below)) else found
  | _ => found

/-- What the variables of an environment put under the key of a setting, if any of them does. -/
def underKey (env : Environment) (f : Field) : Option Value := env.foldl (L.overlay f.key) none

/-- What stands under the key of a setting: what the variables put there, or else the default. -/
def valueAt (env : Environment) (f : Field) : Value :=
  (L.underKey env f).getD ((f.setting default).toValue)

/-- What a variable adds is laid over what stood there. -/
theorem overlay_eq_laid (key : String) (found : Option Value) (var : String × String) :
    L.overlay key found var = match L.overlay key none var with
      | none => found
      | some value => some (L.laid found value) := by
  unfold overlay
  split
  · split <;> rfl
  · rfl

variable {L}

/-- The layer of a variable alone has under each key what the variable adds there. -/
theorem Laws.layer_isTable_singleton (hL : L.Laws) (var : String × String) :
    IsTable (L.layer variablePrefix [var]) fun key => L.overlay key none var := by
  unfold overlay
  cases hpath : path? variablePrefix.toList var.1 with
  | none => exact hL.layer_other (path?_eq_none_iff.1 hpath) var.2
  | some path =>
      have hlayer := hL.layer_named (path?_eq_some_iff.1 hpath) var.2
      rw [map_ofList_eq_iff.2 rfl] at hlayer
      cases path with
      | nil =>
          -- A name leads to one key at least.
          obtain ⟨-, -, -, -, -, hne, -⟩ := path?_eq_some_iff.1 hpath
          exact absurd rfl hne
      | cons first below =>
          refine ⟨[(first, nest (L.parse var.2) below)], hlayer, List.nodup_singleton _, ?_⟩
          intro key
          by_cases hkey : first = key
          · simp [hkey, laid]
          · simp [hkey, Ne.symm hkey]

/-- **The layer of an environment has under each key what its variables add there.** -/
theorem Laws.layer_isTable (hL : L.Laws) (env : Environment) :
    IsTable (L.layer variablePrefix env) fun key => env.foldl (L.overlay key) none := by
  induction env using List.reverseRecOn with
  | nil => exact hL.layer_nil variablePrefix
  | append_singleton env var ih =>
      have hnext := hL.merge_isTable ih (hL.layer_isTable_singleton var)
      rw [← hL.layer_append] at hnext
      refine hnext.congr fun key => ?_
      rw [List.foldl_append, List.foldl_cons, List.foldl_nil]
      exact (L.overlay_eq_laid key _ var).symm

end Layering

/-! ## What stands under a setting's key -/

/-- Under the key of a field stands its setting. -/
theorem lookup_toSettings (c : Config) (f : Field) :
    c.toSettings.lookup f.key = some (f.setting c) := by
  cases f <;> rfl

namespace Layering

variable {L : Layering}

/-- A variable that does not concern a setting puts nothing under its key. -/
theorem overlay_of_not_concerns {var : String × String} {f : Field} (h : ¬ Concerns var.1 f)
    (found : Option Value) : L.overlay f.key found var = found := by
  unfold overlay
  split
  · next first below hpath =>
    rw [if_neg]
    rintro rfl
    exact h (concerns_iff.2 ⟨below, hpath⟩)
  · rfl

/-- Only the variables that concern a setting put something under its key. -/
theorem underKey_filter (env : Environment) (f : Field) :
    L.underKey (env.filter fun var => Concerns var.1 f) f = L.underKey env f := by
  unfold underKey
  rw [List.foldl_filter]
  apply List.foldl_ext
  intro found var _
  by_cases h : Concerns var.1 f
  · rw [if_pos (decide_eq_true h)]
  · rw [if_neg (by simpa using h), overlay_of_not_concerns h]

/-- A setting gives way to any value that is laid over it. -/
theorem Laws.merge_toValue (hL : L.Laws) (s : Setting) (value : Value) :
    L.merge s.toValue value = value := by
  refine hL.merge_of_not_table (.inl fun entries h => ?_)
  cases s <;> cases h

/-- **Under the key of a setting stands what the variables put there, or else the default.** -/
theorem Laws.exists_merged_isTable (hL : L.Laws) (env : Environment) :
    ∃ found, IsTable (L.merged env) found
      ∧ ∀ f : Field, found f.key = some (L.valueAt env f) := by
  have hnodup : (default.toSettings.map Prod.fst).Nodup := by decide
  refine ⟨_, hL.merge_isTable (hL.serialized_isTable hnodup) (hL.layer_isTable env), ?_⟩
  intro f
  rw [lookup_toSettings, Option.map_some, valueAt, underKey]
  cases env.foldl (L.overlay f.key) none with
  | none => rfl
  | some value => exact congrArg some (hL.merge_toValue _ value)

/-- **The outcome depends on what stands under the keys of the settings.** -/
theorem Laws.fromEnvironment_eq_of_underKey (hL : L.Laws) {env env' : Environment}
    (h : ∀ f, L.underKey env f = L.underKey env' f) :
    L.fromEnvironment env = L.fromEnvironment env' := by
  obtain ⟨found, htable, hfound⟩ := hL.exists_merged_isTable env
  obtain ⟨found', htable', hfound'⟩ := hL.exists_merged_isTable env'
  rw [fromEnvironment, fromEnvironment, hL.extract_congr htable htable']
  intro field hfield
  obtain ⟨f, -, rfl⟩ := List.mem_map.1 hfield
  refine (hfound f).trans (Eq.trans ?_ (hfound' f).symm)
  rw [valueAt, valueAt, h]

/-- **The outcome depends, for each setting, on the variables that concern it, in their order.** -/
theorem Laws.fromEnvironment_congr (hL : L.Laws) {env env' : Environment}
    (h : ∀ f, (env.filter fun var => Concerns var.1 f) = env'.filter fun var => Concerns var.1 f) :
    L.fromEnvironment env = L.fromEnvironment env' := by
  apply hL.fromEnvironment_eq_of_underKey
  intro f
  rw [← underKey_filter env, h, underKey_filter]

end Layering

end Config

end InfixCalc
