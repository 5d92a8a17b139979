import Mixdown.Proofs.Datum.Equality
import Mixdown.Proofs.Machine
import Mixdown.Proofs.Plan.RoundTrip

/-!
# Plans saved and loaded
-/

namespace Mixdown

namespace Machine

variable {machine after : Machine}

theorem eq_some_of_attempt
    {change : Machine → Option Machine}
    (succeeded : (attempt change).run machine = (true, after)) : change machine = some after := by
  rw [attempt] at succeeded
  simp only [StateT.run, modifyGet, MonadStateOf.modifyGet, StateT.modifyGet, pure] at succeeded
  cases changes : change machine with
  | none =>
      rw [changes] at succeeded
      cases succeeded
  | some changed =>
      rw [changes] at succeeded
      cases succeeded
      rfl

theorem putFile_of_replaceFile
    {path text : String} (replaced : (host.replaceFile path text).run machine = (true, after)) :
    machine.putFile path text.toUTF8 = some after :=
  eq_some_of_attempt replaced

/-- A text that was saved is what its file holds. -/
theorem fileBytes?_of_save
    {path text : String} (saved : (host.save path text).run machine = (true, after)) :
    after.fileBytes? path = some text.toUTF8 := by
  rw [Host.save, StateT.run_bind] at saved
  generalize (host.makeDirectories (parentPath path)).run machine = making at saved
  obtain ⟨made, ready⟩ := making
  cases made with
  | false => cases saved
  | true => exact fileBytes?_of_putFile (putFile_of_replaceFile saved)

theorem run_loadPlan
    {path : String} {bytes : ByteArray} {plan : Plan}
    (held : machine.fileBytes? path = some bytes)
    (read : (Json.readBytes? bytes).bind Plan.ofDatum? = some plan) :
    (host.loadPlan path).run machine = (.ok plan, machine) := by
  have reads : (host.readFile path).run machine = (some bytes, machine) :=
    congrArg (·, machine) held
  rw [Host.loadPlan, StateT.run_bind, reads]
  simp only [bind, read]
  rfl

/-- A plan that was saved loads as it was, all its parameters and with them its
fingerprint included, if the text that was written for it holds the data it was written
from. -/
theorem loadPlan_savePlan
    {path : String} {plan : Plan} (finite : plan.IsFinite)
    (readBack : Json.readBytes? (Json.pretty plan.toDatum).toUTF8 = some plan.toDatum)
    (saved : (host.savePlan path plan).run machine = (true, after)) :
    (host.loadPlan path).run after = (.ok plan, after) := by
  apply run_loadPlan (fileBytes?_of_save saved)
  rw [readBack, Option.bind_some]
  exact Plan.ofDatum?_toDatum finite

end Machine

/-! ## A plan in full -/

theorem Json.readBytes?_toUTF8 (text : String) : readBytes? text.toUTF8 = read? text.toList := by
  have valid : String.fromUTF8? text.toUTF8 = some text := dif_pos text.isValidUTF8
  rw [readBytes?, valid, Option.bind_some]

/-- A plan with parameters of every kind. -/
def Plan.brief : Plan where
  mixId := ⟨[0, 17, 34, 51, 68, 85, 102, 119, 136, 153, 170, 187, 204, 221, 238, 255], rfl⟩
  title := "“brief”"
  seed := 7
  mixDuration := 2.5
  endRule := .first
  inputs := [⟨0, "a.wav", 0, 0⟩]
  stages :=
    [.ingest 0 "a.wav" "a",
      ⟨["a"], some "atrim", .ofList [("duration", .number 2.0)], "b"⟩]
  finalLabel := "b"
  timing := [⟨0, 2.5, 0.5, 3.0, true, []⟩]
  warnings := ["-"]
  fingerprint := ""

theorem Machine.loadPlan_savePlan_brief :
    ∃ after,
      (host.savePlan "mixes/brief.json" Plan.brief).run bare = (true, after) ∧
        (host.loadPlan "mixes/brief.json").run after = (.ok Plan.brief, after) := by
  have finite : Plan.brief.IsFinite := by decide +kernel
  have readBack :
      Json.readBytes? (Json.pretty Plan.brief.toDatum).toUTF8 = some Plan.brief.toDatum := by
    -- The characters are gathered piece by piece, as a text of this length is slow to take apart.
    rw [Json.readBytes?_toUTF8, Json.pretty]
    simp only [Plan.toDatum, Plan.fields, Plan.brief, InputFile.toDatum, Stage.toDatum,
      TrackReport.toDatum, List.map_cons, List.map_nil, List.cons_append,
      List.nil_append, Json.prettyAt, Json.prettyFields, Json.prettyItems, String.toList_append]
    decide +kernel
  have saved : ((host.savePlan "mixes/brief.json" Plan.brief).run bare).1 = true := by
    decide +kernel
  exact ⟨_, Prod.ext saved rfl, loadPlan_savePlan finite readBack (Prod.ext saved rfl)⟩

end Mixdown
