import Mathlib.Data.List.Induction
import Mixdown.Effect.Steps
import Mixdown.Proofs.Keyed
import Mixdown.Proofs.Text.Utf8
import Mixdown.Settings.Basic

/-!
# Presets by name

What the preset named in an effect is under given settings, whatever the case of its
letters.
-/

namespace Mixdown

/-- Of entries that come under one key, the one with the greatest old key is the last. -/
theorem lookup_reverse_map_eq_some_iff
    {rename : String → String} {entries : List (String × β)} {key : String} {value : β}
    (increase : KeysIncrease entries) :
    (entries.map fun entry => (rename entry.1, entry.2)).reverse.lookup key = some value ↔
      ∃ original, (original, value) ∈ entries ∧ rename original = key ∧
        ∀ other ∈ entries, rename other.1 = key → other.1 ≤ original := by
  induction entries using List.reverseRecOn with
  | nil => simp
  | append_singleton before last inductionHypothesis =>
      obtain ⟨greatest, kept⟩ := last
      obtain ⟨beforeIncrease, _, below⟩ := List.pairwise_append.mp increase
      rw [List.map_append, List.reverse_append, List.map_singleton, List.reverse_singleton,
        List.singleton_append, lookup_cons_entry]
      split
      next same =>
        constructor
        · intro found
          cases found
          refine ⟨greatest, List.mem_append_right before List.mem_cons_self, same.symm, ?_⟩
          intro other member _
          rcases List.mem_append.mp member with earlier | here
          · exact String.not_lt.mp (String.lt_asymm (below other earlier _ List.mem_cons_self))
          · cases List.mem_singleton.mp here
            exact String.le_refl greatest
        · rintro ⟨original, member, _, isGreatest⟩
          have notAbove : greatest ≤ original :=
            isGreatest _ (List.mem_append_right before List.mem_cons_self) same.symm
          rcases List.mem_append.mp member with earlier | here
          · exact absurd (below _ earlier _ List.mem_cons_self) (String.not_lt.mpr notAbove)
          · cases List.mem_singleton.mp here
            rfl
      next different =>
        rw [inductionHypothesis beforeIncrease]
        constructor
        · rintro ⟨original, member, named, isGreatest⟩
          refine ⟨original, List.mem_append_left _ member, named, fun other among same => ?_⟩
          rcases List.mem_append.mp among with earlier | here
          · exact isGreatest other earlier same
          · rw [List.mem_singleton.mp here] at same
            exact absurd same.symm different
        · rintro ⟨original, member, named, isGreatest⟩
          rcases List.mem_append.mp member with earlier | here
          · exact ⟨original, earlier, named,
              fun other among => isGreatest other (List.mem_append_left _ among)⟩
          · cases List.mem_singleton.mp here
            exact absurd named.symm different

namespace Settings

open Fingerprint (textBytes)

/-- A preset has a name, in letters of either case: a configured one comes before a
built-in one, and of configured ones the one whose own name is the greatest by bytes. -/
inductive Names (settings : Settings) (name : String) (preset : WavePreset) : Prop
  | configured (original : String)
      (isConfigured : (original, preset) ∈ settings.wavePresets.entries)
      (same : Text.lower original = Text.lower name)
      (greatest : ∀ other ∈ settings.wavePresets.entries,
        Text.lower other.1 = Text.lower name → textBytes other.1 ≤ textBytes original)
  | builtin
      (unconfigured : ∀ other ∈ settings.wavePresets.entries,
        Text.lower other.1 ≠ Text.lower name)
      (isBuiltin : (Text.lower name, preset) ∈ WavePreset.builtin.entries)

/-- The preset that a name stands for: one of that name, and where there is none the one
that is named `default`. -/
def IsMeant (settings : Settings) (name : String) (preset : WavePreset) : Prop :=
  settings.Names name preset ∨
    (∀ other, ¬ settings.Names name other) ∧ settings.Names Effect.defaultPreset preset

variable {settings : Settings} {name : String} {preset : WavePreset}

theorem names_iff :
    settings.Names name preset ↔ settings.presets.get? (Text.lower name) = some preset := by
  rw [presets, Keyed.get?_insertAll, Option.or_eq_some_iff, Keyed.get?_eq_some_iff,
    lookup_reverse_map_eq_some_iff settings.wavePresets.increase, List.lookup_eq_none_iff]
  constructor
  · intro names
    cases names with
    | configured original isConfigured same greatest =>
        exact Or.inl ⟨original, isConfigured, same,
          fun other among named => Fingerprint.textBytes_le_iff.mp (greatest other among named)⟩
    | builtin unconfigured isBuiltin =>
        refine Or.inr ⟨fun entry member => ?_, isBuiltin⟩
        obtain ⟨other, among, rfl⟩ := List.mem_map.mp (List.mem_reverse.mp member)
        exact bne_iff_ne.mpr (unconfigured other among).symm
  · intro found
    rcases found with ⟨original, isConfigured, same, greatest⟩ | ⟨unconfigured, isBuiltin⟩
    · exact .configured original isConfigured same
        fun other among named => Fingerprint.textBytes_le_iff.mpr (greatest other among named)
    · refine .builtin (fun other among same => ?_) isBuiltin
      have listed :
          (Text.lower other.1, other.2) ∈
            (settings.wavePresets.entries.map
              fun entry => (Text.lower entry.1, entry.2)).reverse :=
        List.mem_reverse.mpr (List.mem_map_of_mem among)
      exact bne_iff_ne.mp (unconfigured _ listed) same.symm

/-- There always is a preset that is named `default`. -/
theorem exists_names_default (settings : Settings) :
    ∃ preset, settings.Names Effect.defaultPreset preset := by
  cases found : settings.presets.get? (Text.lower Effect.defaultPreset) with
  | some preset => exact ⟨preset, names_iff.mpr found⟩
  | none =>
      rw [presets, Keyed.get?_insertAll, Option.or_eq_none_iff] at found
      cases found.2

/-- Looking a name up in lower case finds the one preset that it stands for. -/
theorem isMeant_iff :
    settings.IsMeant name preset ↔
      Effect.presetNamed settings.presets (Text.lower name) = preset := by
  have lowered : Text.lower Effect.defaultPreset = Effect.defaultPreset := by rfl
  have missing :
      (∀ other, ¬ settings.Names name other) ↔
        settings.presets.get? (Text.lower name) = none := by
    simp only [names_iff, Option.eq_none_iff_forall_ne_some, ne_eq]
  obtain ⟨standing, isStanding⟩ := exists_names_default settings
  rw [IsMeant, missing, names_iff, names_iff, Effect.presetNamed, lowered]
  rw [names_iff, lowered] at isStanding
  rw [isStanding]
  cases settings.presets.get? (Text.lower name) <;> simp

end Settings

/-! ## Effects -/

namespace Effect

/-- The name that the parameters of an effect give for its preset: the first of them. -/
def namedPreset (params : List (List Char)) : String :=
  (params.head?.map String.ofList).getD defaultPreset

theorem lower_namedPreset_of_ofParts
    {text name preset : String} {params : List (List Char)}
    (read : ofParts text name params = .ok (.wave preset)) :
    preset = Text.lower (namedPreset params) := by
  unfold ofParts at read
  split at read
  next =>
    split at read
    next => cases read
    next => split at read <;> cases read
  next =>
    split at read
    next => cases read
    next =>
      split at read
      next => cases read
      next =>
        split at read
        next =>
          cases params with
          | nil =>
              cases read
              rfl
          | cons first rest =>
              cases read
              rw [namedPreset, Text.lower, List.head?_cons, Option.map_some, Option.getD_some,
                String.toList_ofList]
        next => split at read <;> cases read

/-- The volume of a wave is that of the one preset which the name in the text stands for,
in whatever case it and the configured names are written. -/
theorem steps_of_ofText_wave
    {text preset : String} (settings : Settings) (read : ofText text = .ok (.wave preset)) :
    ∃ params meant,
      params? ((Text.trim text.toList).dropWhile Char.isAlpha) = some params ∧
        (∀ other, settings.IsMeant (namedPreset params) other ↔ other = meant) ∧
        (wave preset).steps settings.surroundings.presets =
          [⟨"wave", "volume",
            .ofList [("volume", .text meant.expression), ("eval", .text "frame")]⟩] := by
  rw [ofText] at read
  dsimp only at read
  split at read
  next => cases read
  next params found =>
    refine ⟨params, presetNamed settings.presets preset, found, ?_, rfl⟩
    intro other
    rw [Settings.isMeant_iff, ← lower_namedPreset_of_ofParts read]
    exact eq_comm

/-- Settings with two names for presets that differ only in case. -/
def storms : Settings :=
  { Settings.standard with
    wavePresets := .ofList
      [("Storm", ⟨[2.5], [], 1.0, 3.0, 1.0, -0.5, 0.5⟩), ("STORM", .standard)] }

/-- Small letters come after capital ones. -/
theorem steps_of_ofText_wave_storms :
    ofText " Noise\x7b , sTorm, x\x7d" = .ok (.wave "storm") ∧
      ∃ gale, (("Storm", gale) ∈ storms.wavePresets.entries ∧ gale ≠ .standard) ∧
        (wave "storm").steps storms.surroundings.presets =
          [⟨"wave", "volume",
            .ofList [("volume", .text gale.expression), ("eval", .text "frame")]⟩] := by
  have read : ofText " Noise\x7b , sTorm, x\x7d" = .ok (.wave "storm") := by
    rfl
  obtain ⟨params, meant, found, unique, carried⟩ := steps_of_ofText_wave storms read
  have isFound :
      params? ((Text.trim " Noise\x7b , sTorm, x\x7d".toList).dropWhile Char.isAlpha) =
        some [['s', 'T', 'o', 'r', 'm'], ['x']] := by
    rfl
  cases isFound.symm.trans found
  have listed :
      ("Storm", ⟨[2.5], [], 1.0, 3.0, 1.0, -0.5, 0.5⟩) ∈ storms.wavePresets.entries := by
    decide +kernel
  have names : storms.Names "sTorm" ⟨[2.5], [], 1.0, 3.0, 1.0, -0.5, 0.5⟩ :=
    .configured "Storm" listed (by decide) (by decide +kernel)
  cases (unique _).mp (Or.inl names)
  exact ⟨read, _, ⟨listed, by decide +kernel⟩, carried⟩

end Effect

end Mixdown
