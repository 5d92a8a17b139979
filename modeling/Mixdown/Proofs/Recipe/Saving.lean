import Mixdown.Proofs.Plan.Saving
import Mixdown.Proofs.Recipe.RoundTrip

/-!
# Recipes saved and loaded

Saving asks nothing of a recipe, and loading asks more than the checks that let it be
balanced and planned: no clip may state when the mix ends.
-/

namespace Mixdown

variable {recipe : Recipe Float}

theorem Recipe.ofBytes_of_toDocument
    {bytes : ByteArray} (admitted : recipe.check = .ok ())
    (holds : Json.readBytes? bytes = some recipe.toDocument.toDatum) :
    ofBytes bytes = unlessStopped (strayRule? recipe.placedClips) recipe.reread :=
  (ofBytes_of_holds (writable_toDocument admitted) holds).trans
    (ofDocument_toDocument_outcome admitted)

namespace Machine

variable {machine after : Machine} {path : String}

theorem run_loadRecipe
    {bytes : ByteArray} (held : machine.fileBytes? path = some bytes) :
    (host.loadRecipe path).run machine =
      ((Recipe.ofBytes bytes).mapError .recipe, machine) := by
  have reads : (host.readFile path).run machine = (some bytes, machine) :=
    congrArg (·, machine) held
  rw [Host.loadRecipe, StateT.run_bind, reads]
  rfl

/-- What is written of an admitted recipe is read up to the first clip that states when
the mix ends.  Only where there is none is the recipe read, tidied, and can be loaded from
the file that it was saved to; as it was read it is admitted too. -/
theorem loadRecipe_saveRecipe (admitted : recipe.check = .ok ()) :
    recipe.reread.check = .ok () ∧
    (∀ bytes, Json.readBytes? bytes = some recipe.toDocument.toDatum →
      Recipe.ofBytes bytes = unlessStopped (strayRule? recipe.placedClips) recipe.reread) ∧
    (∀ path machine after,
      Json.readBytes? (Json.pretty recipe.toDocument.toDatum).toUTF8 =
        some recipe.toDocument.toDatum →
      (host.saveRecipe path recipe).run machine = (true, after) →
      (host.loadRecipe path).run after =
        ((unlessStopped (strayRule? recipe.placedClips) recipe.reread).mapError .recipe,
          after)) := by
  refine ⟨Recipe.check_reread admitted, fun _ => Recipe.ofBytes_of_toDocument admitted, ?_⟩
  intro path machine after readBack saved
  rw [run_loadRecipe (fileBytes?_of_save saved), Recipe.ofBytes_of_toDocument admitted readBack]

end Machine

/-- Blanks around a file name, a preset among commas, and a pause that was drawn. -/
def Recipe.untidy : Recipe Float where
  title := ""
  tracks :=
    [⟨3, [⟨.file " a.wav", .fixed 2.0, some 50.0, [.wave " ,Main,x"]⟩,
        ⟨.silence, .elastic 1.0 4.0 2.5, none, [.reverse]⟩], none, [.mixDuration .first],
      4.5, 3.0, 6.0⟩]

theorem Machine.loadRecipe_saveRecipe_untidy :
    ∃ after,
      (host.saveRecipe "a.json" Recipe.untidy).run bare = (true, after) ∧
        (host.loadRecipe "a.json").run after =
          (.ok ⟨"", [.ofClips 3 [⟨.file "a.wav", .fixed 2.0, some 50.0, [.wave "main"]⟩,
              ⟨.silence, .elastic 1.0 4.0 1.0, none, [.reverse]⟩] none [.mixDuration .first]]⟩,
            after) := by
  have admitted : Recipe.untidy.check = .ok () := by
    decide +kernel
  have readBack :
      Json.readBytes? (Json.pretty Recipe.untidy.toDocument.toDatum).toUTF8 =
        some Recipe.untidy.toDocument.toDatum := by
    -- The characters are gathered piece by piece, as a text of this length is slow to take apart.
    rw [Json.readBytes?_toUTF8, Json.pretty]
    simp only [Recipe.toDocument, Recipe.untidy, Track.toEntry, Clip.toEntry, Document.toDatum,
      TrackEntry.toDatum, ClipEntry.toDatum, Datum.fieldIfSome, Option.map_some, Option.map_none,
      Option.toList_some, Option.toList_none, List.map_cons, List.map_nil, List.cons_append,
      List.nil_append, Json.prettyAt, Json.prettyFields, Json.prettyItems, String.toList_append]
    decide +kernel
  have saved : ((host.saveRecipe "a.json" Recipe.untidy).run bare).1 = true := by
    decide +kernel
  obtain ⟨_, _, loads⟩ := loadRecipe_saveRecipe admitted
  have loaded := loads "a.json" bare _ readBack (Prod.ext saved rfl)
  exact ⟨_, Prod.ext saved rfl, loaded⟩

/-- A pause whose clip, and not its track, states when the mix ends. -/
def Recipe.stray : Recipe Float where
  title := ""
  tracks := [.ofClips 0 [⟨.silence, .fixed 2.0, none, [.mixDuration .first]⟩] none []]

/-- A recipe that is planned and saved need not load. -/
theorem Machine.exists_unloadable_of_admitted :
    Recipe.stray.check = .ok () ∧
      (∃ plan, Plan.ofRecipe .standard .zero 0 Recipe.stray = .ok (.ok plan)) ∧
      ∃ after,
        (host.saveRecipe "a.json" Recipe.stray).run bare = (true, after) ∧
          (host.loadRecipe "a.json").run after =
            (.error (.recipe (.invalid (.ofClip 0 0) .endRuleOnClip)), after) := by
  have planned : (Plan.ofRecipe .standard .zero 0 Recipe.stray).toOption.any
      (fun outcome => outcome.isOk) = true := by
    decide +kernel
  have saved : ((host.saveRecipe "a.json" Recipe.stray).run bare).1 = true := by
    decide +kernel
  have admitted : Recipe.stray.check = .ok () := by
    decide +kernel
  have readBack :
      Json.readBytes? (Json.pretty Recipe.stray.toDocument.toDatum).toUTF8 =
        some Recipe.stray.toDocument.toDatum := by
    rw [Json.readBytes?_toUTF8, Json.pretty]
    simp only [Recipe.toDocument, Recipe.stray, Track.ofClips, Track.toEntry, Document.toDatum,
      TrackEntry.toDatum, Datum.fieldIfSome, Option.map_some, Option.map_none, Option.toList_some,
      Option.toList_none, List.map_cons, List.map_nil, List.cons_append, List.nil_append,
      Json.prettyAt, Json.prettyFields, Json.prettyItems, String.toList_append]
    decide +kernel
  refine ⟨admitted, ?_, _, Prod.ext saved rfl, ?_⟩
  · obtain ⟨outcome, planning, isOk⟩ := exists_ok_of_any planned
    cases outcome with
    | error error => cases isOk
    | ok plan => exact ⟨plan, planning⟩
  · rw [run_loadRecipe (fileBytes?_of_save (Prod.ext saved rfl)),
      Recipe.ofBytes_of_toDocument admitted readBack]
    rfl

end Mixdown
