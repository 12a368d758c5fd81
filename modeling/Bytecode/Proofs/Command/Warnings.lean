import Bytecode.Proofs.Command.Stages
import Bytecode.Proofs.Document.Loading
import Bytecode.Proofs.Render.Branches

/-!
# Warnings of stray branches

A request for the branches of a listing prints their list and then warns about each destination
that is not stored. The list follows the branches, with all their repetitions, and the warnings
follow the set of targets, so what ties them together is the invariant of the store: what is warned
about is what some line shows by number (`Render.Strays`).

* `ConfigWarned`: all that is warned about before, while the settings are read;
* `runs_listBranches`: the request after its settings are read;
* `Reported`: standard error beside standard output, for every listing that is loaded
  (`branches_reported`).
-/

namespace Bytecode.Command

variable {files : Opener}

/-! ## Before the listing -/

/-- The only warning about settings is that the file that was named does not exist. -/
def ConfigWarned (config : Option String) (warnings : List String) : Prop :=
  warnings = [] ∨ ∃ name, config = some name ∧
    warnings = ["Config file " ++ name ++ " does not exist, using defaults"]

theorem runs_fileSettings (files : Opener) (config : Option String) :
    ∃ result warnings, Runs (fileSettings files config) result warnings ByteArray.empty ∧
      ConfigWarned config warnings ∧ ∀ e, result = .error e → e ≠ .overflow := by
  unfold fileSettings
  dsimp only
  cases hread : Settings.read files (config.getD defaultConfig) with
  | ok settings => exact ⟨_, _, runs_pure settings, .inl rfl, nofun⟩
  | error e =>
    dsimp only
    by_cases hkind : (Failure.ofSettings e).kind = .notFound
    · rw [if_pos hkind]
      have hdefaults := runs_pure ({} : Settings)
      cases config with
      | none => exact ⟨_, _, hdefaults, .inl rfl, nofun⟩
      | some name =>
        have hboth := (runs_warn ("Config file " ++ name ++ " does not exist, using defaults")).bind
          (f := fun _ => (pure {} : Session Settings)) hdefaults
        exact ⟨_, _, hboth, .inr ⟨name, rfl, rfl⟩, nofun⟩
    · rw [if_neg hkind]
      refine ⟨_, _, runs_throw _, .inl rfl, ?_⟩
      rintro e ⟨⟩
      exact Failure.ofSettings_ne_overflow _

theorem runs_sharedSettings (files : Opener) (r : Request) :
    ∃ result warnings, Runs (sharedSettings files r) result warnings ByteArray.empty ∧
      ConfigWarned r.config warnings ∧ ∀ e, result = .error e → e ≠ .overflow := by
  obtain ⟨result, warnings, hfile, hwarned, hreported⟩ := runs_fileSettings files r.config
  cases result with
  | error e =>
    refine ⟨_, _, hfile.bind_error, hwarned, ?_⟩
    rintro e ⟨⟩
    exact hreported _ rfl
  | ok file =>
    by_cases hvalid : ∀ text ∈ r.indent, (indentOfText? text).isSome
    · exact ⟨_, _, hfile.sharedSettings hvalid, hwarned, nofun⟩
    · obtain ⟨text, hindent, hnone⟩ : ∃ text ∈ r.indent, indentOfText? text = none := by
        simpa using hvalid
      refine ⟨_, _, hfile.sharedSettings_error hindent hnone, hwarned, ?_⟩
      rintro e ⟨⟩
      nofun

/-! ## The listing -/

theorem runs_listBranches {r : Request} {settings : Settings} {store : Store}
    {warnings : List String}
    (configured : Runs (sharedSettings files r) (.ok settings) warnings .empty)
    (loads : loadListing files r.listing = .ok store) :
    Runs (listBranches files r) (.ok ())
      (warnings ++ (Render.strayTargets store).map strayWarning)
      (Render.branchesText settings store).toUTF8 := by
  have hprint := runs_print_output (Output.write (Render.branchesText settings store))
  rw [(Output.writes_write _).run_none] at hprint
  have hall := configured.bind (f := fun settings => do
      let store ← orFail .ofLoad (loadListing files r.listing)
      print (Output.write (Render.branchesText settings store)).printing
      (Render.strayTargets store).forM fun a => warn (strayWarning a))
    ((runs_orFail loads).bind (hprint.bind (runs_forM_warn strayWarning _)))
  rwa [ByteArray.empty_append, ByteArray.empty_append, ByteArray.append_empty, List.nil_append,
    List.nil_append] at hall

/-! ## Outcomes -/

/-- The outcome of a request for the branches of a store: its settings cannot be had, or its output
is the list of branches and there is one warning for each stray destination, lowest first. -/
inductive Reported (files : Opener) (r : Request) (store : Store) : Prop where
  | refused {failure : Failure} {warnings : List String}
      (configured : Runs (sharedSettings files r) (.error failure) warnings .empty)
      (warned : ConfigWarned r.config warnings)
      (outcome : r.run files = ⟨1, ByteArray.empty, String.join (warnings.map warningText) ++
        "Error: " ++ failure.debugText ++ "\n"⟩)
  | listed {settings : Settings} {warnings : List String} {strays : List Address}
      (configured : Runs (sharedSettings files r) (.ok settings) warnings .empty)
      (warned : ConfigWarned r.config warnings)
      (stray : Render.Strays settings store strays)
      (outcome : r.run files = ⟨0, (Render.branchesText settings store).toUTF8,
        String.join (warnings.map warningText) ++ String.join (strays.map fun a =>
          "WARN: Branch target " ++ a.raw ++ " is outside the listing\n")⟩)

theorem join_strayWarnings (as : List Address) :
    String.join ((as.map strayWarning).map warningText) = String.join (as.map fun a =>
      "WARN: Branch target " ++ a.raw ++ " is outside the listing\n") := by
  have hstart : "WARN: Branch target " = "WARN: " ++ "Branch target " := rfl
  have hend : " is outside the listing\n" = " is outside the listing" ++ "\n" := rfl
  rw [List.map_map]
  congr 1
  refine List.map_congr_left fun a _ => ?_
  rw [Function.comp_apply, warningText, strayWarning, hstart, hend]
  simp only [String.append_assoc]

/-- **Warnings match the list of branches.** For every listing that is loaded, what a request for
its branches leaves on standard error is, after a warning about the settings file, one warning for
each address that some branch goes to and that is not stored, lowest first; these are the addresses
that the list on standard output shows by number, however many of its lines share one. -/
theorem branches_reported (files : Opener) {r : Request} (verb : r.verb = .branches) {store : Store}
    (loads : loadListing files r.listing = .ok store) : Reported files r store := by
  have hsession : session files r = listBranches files r := by
    rw [session, verb]
  obtain ⟨l, _, hstore⟩ := (loadListing_eq_ok_iff store).mp loads
  have h : store.Sound := (Listing.sound_of_store hstore).1
  obtain ⟨result, warnings, configured, warned, reported⟩ := runs_sharedSettings files r
  cases result with
  | error failure =>
    have hrun : Runs (session files r) (.error failure) warnings .empty := by
      rw [hsession]
      exact configured.bind_error
    exact .refused configured warned (hrun.outcome_error (reported failure rfl))
  | ok settings =>
    have hrun := runs_listBranches configured loads
    rw [← hsession] at hrun
    refine .listed configured warned (Render.strays_strayTargets settings h) ?_
    rw [hrun.outcome_ok, List.map_append, String.join_append, join_strayWarnings]

/-- Two branches that share a stray destination, one that is the lowest and comes last, and one that
is stored; the settings file that is named is missing. -/
theorem branches_reported_shared :
    let files : Opener := fun name =>
      if name = "code.json" then
        .ok ⟨"[[[0,\"jmp\",[],64],[4,\"jz\",[],0],[6,\"jmp\",[],64],[8,\"jz\",[],2]]]".toUTF8.toList,
          .complete⟩
      else .error .noSuchFile
    let r : Request := { verb := .branches, listing := "code.json", config := some "none.json" }
    r.verb = .branches ∧
      ∃ store, loadListing files r.listing = .ok store ∧ Reported files r store := by
  intro files r
  let l : Listing := ⟨[⟨0, "jmp", [], some 64, none⟩, ⟨4, "jz", [], some 0, none⟩,
    ⟨6, "jmp", [], some 64, none⟩, ⟨8, "jz", [], some 2, none⟩]⟩
  have loads : loadListing files r.listing =
      .ok (Store.ofList (l.entries.map Entry.instruction)) :=
    (loadListing_eq_ok_iff _).mpr ⟨l, ⟨_, rfl, by decide +kernel⟩,
      (l.store_eq_ok_iff _).mpr ⟨by decide, rfl⟩⟩
  exact ⟨rfl, _, loads, branches_reported files rfl loads⟩

end Bytecode.Command
