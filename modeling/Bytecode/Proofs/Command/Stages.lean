import Bytecode.Folder
import Bytecode.Proofs.Command.Session
import Bytecode.Proofs.Json.Failures
import Bytecode.Proofs.Sequencing

/-!
# The stages of a command

What each stage of a command gives before the first byte is printed, and that it prints none.

* `Opener.Steady`: what is asked of the files;
* `GivesSettings`, `GivesListing`: what the two files of a request have to be;
* `Request.shared`, `Request.effective`, `Request.range`: what the options make of the settings, and
  the range that they name;
* `quiet_sharedSettings`, `quiet_effectiveSettings`, `quiet_rangeOption`: the stages.
-/

namespace Bytecode

/-- A file is looked for when it is opened: one that was found is not reported missing while it is
read. -/
def Opener.Steady (files : Opener) : Prop :=
  ∀ name source error, files name = .ok source → source.ending = .broken error →
    error.kind ≠ .notFound

/-- In a folder, what opens is read to its end or is a directory. -/
theorem Folder.steady_openFile (folder : Folder) : Opener.Steady folder.openFile := by
  intro name source error hopen hending
  unfold openFile at hopen
  split at hopen
  · cases hopen
  split at hopen
  · cases hopen
  split at hopen
  · cases hopen
  split at hopen
  · cases hopen
    cases hending
  · cases hopen
    cases hending
    decide
  · cases hopen

/-! ## What the two files have to be -/

theorem Settings.truthful_decoder : Settings.decoder.IsTruthful := by
  refine Json.Record.truthful_record fun field hfield => ?_
  change field ∈ [labelStemField, showAddressesField, indentField, formatField] at hfield
  simp only [List.mem_cons, List.not_mem_nil, or_false] at hfield
  rcases hfield with rfl | rfl | rfl | rfl
  · exact Json.truthful_text.field _ _ _
  · exact Json.truthful_boolean.field _ _ _
  · exact ((Json.truthful_integer _ _ _).map _).field _ _ _
  · refine (Json.truthful_string fun text c hc => ?_).field _ _ _
    split at hc
    · cases hc
    · cases hc
      rfl

namespace Command

/-- The settings that a settings file gives: the defaults if it is missing, and else what it holds.
-/
inductive GivesSettings (files : Opener) (name : String) : Settings → Prop where
  | missing {e : SystemError} (fails : files name = .error e) (kind : e.kind = .notFound) :
      GivesSettings files name {}
  | held {source : Source} {settings : Settings} (opens : files name = .ok source)
      (decodes : Settings.decoder.document source = .ok settings) :
      GivesSettings files name settings

/-- The listing that a file holds. -/
def GivesListing (files : Opener) (name : String) (l : Listing) : Prop :=
  ∃ source, files name = .ok source ∧ Listing.decoder.document source = .ok l

variable {files : Opener} {name : String}

theorem givesSettings_of_error {e : SystemError} (h : files name = .error e) (s : Settings) :
    GivesSettings files name s ↔ e.kind = .notFound ∧ s = {} := by
  constructor
  · rintro (⟨fails, kind⟩ | ⟨opens, _⟩)
    · rw [h] at fails
      cases fails
      exact ⟨kind, rfl⟩
    · rw [h] at opens
      cases opens
  · rintro ⟨kind, rfl⟩
    exact .missing h kind

theorem givesSettings_of_ok {source : Source} (h : files name = .ok source) (s : Settings) :
    GivesSettings files name s ↔ Settings.decoder.document source = .ok s := by
  constructor
  · rintro (⟨fails, _⟩ | ⟨opens, decodes⟩)
    · rw [h] at fails
      cases fails
    · rw [h] at opens
      cases opens
      exact decodes
  · exact .held h

theorem givesSettings_of_read {settings : Settings} (h : Settings.read files name = .ok settings)
    (s : Settings) : GivesSettings files name s ↔ s = settings := by
  unfold Settings.read at h
  split at h
  · cases h
  · rename_i source hfile
    rw [givesSettings_of_ok hfile]
    cases hdocument : Settings.decoder.document source with
    | error e => rw [hdocument] at h; cases h
    | ok found =>
      rw [hdocument] at h
      cases h
      rw [Except.ok.injEq, eq_comm]

/-- The failure of a document is that something is missing only if its reader said so. -/
theorem kind_ofDocument {e : Json.Error} (h : (Failure.ofDocument e).kind = .notFound) :
    ∃ error, e.cause = .source error ∧ error.kind = .notFound := by
  unfold Failure.ofDocument at h
  split at h
  · exact ⟨_, ‹_›, h⟩
  · rename_i hcause
    change e.system.kind = .notFound at h
    unfold Json.Error.system at h
    split at h
    · exact absurd ‹_› (hcause _)
    · dsimp only at h
      split at h <;> cases h

/-- Where the settings cannot be read, they are the defaults or the failure is a different one. -/
theorem givesSettings_of_failed (steady : files.Steady) {e : Settings.ReadError}
    (h : Settings.read files name = .error e) (s : Settings) :
    GivesSettings files name s ↔ (Failure.ofSettings e).kind = .notFound ∧ s = {} := by
  unfold Settings.read at h
  split at h
  · rename_i hfile
    cases h
    exact givesSettings_of_error hfile s
  · rename_i source hfile
    rw [givesSettings_of_ok hfile]
    cases hdocument : Settings.decoder.document source with
    | ok settings => rw [hdocument] at h; cases h
    | error fault =>
      rw [hdocument] at h
      cases h
      simp only [reduceCtorEq, false_iff]
      -- The reader itself would have to say that the file is missing.
      rintro ⟨kind, _⟩
      obtain ⟨error, hcause, hmissing⟩ := kind_ofDocument kind
      have hending := Settings.truthful_decoder.document hdocument hcause
      exact steady _ _ _ hfile hending hmissing

theorem loadListing_eq_ok_iff (store : Store) :
    loadListing files name = .ok store ↔ ∃ l, GivesListing files name l ∧ l.store = .ok store := by
  unfold loadListing GivesListing readListing
  cases files name with
  | error e => simp
  | ok source =>
    cases hdocument : Listing.decoder.document source with
    | error e => simp [hdocument]
    | ok l => simp [hdocument, mapError_eq_ok_iff]

/-! ## What the options make of them -/

namespace Request

def configName (r : Request) : String := r.config.getD defaultConfig

/-- The settings of the file under the options that every command knows. -/
def shared (r : Request) (file : Settings) : Settings :=
  { file with
    labelStem := r.labelStem.getD file.labelStem
    indent := (r.indent.bind indentOfText?).getD file.indent }

/-- The settings of the file under all options. -/
def effective (r : Request) (file : Settings) : Settings :=
  { r.shared file with
    format := (r.format.bind Format.ofText?).getD file.format
    showAddresses := if r.hideAddresses then false else file.showAddresses }

/-- The range that the options name with labels of this stem: up to the last address if they name
no end. -/
def range (r : Request) (stem : String) : Option Render.Range :=
  (r.start.bind fun text => Address.ofText? text stem).map fun start =>
    (start, (r.stop.bind fun text => Address.ofText? text stem).getD Address.last)

end Request

/-! ## The stages before the first byte -/

theorem quiet_fileSettings (steady : files.Steady) (config : Option String) :
    Quiet (fileSettings files config) (GivesSettings files (config.getD defaultConfig)) := by
  unfold fileSettings
  dsimp only
  cases hread : Settings.read files (config.getD defaultConfig) with
  | ok settings => exact (quiet_pure settings).congr fun s => (givesSettings_of_read hread s).symm
  | error e =>
    have hgives := givesSettings_of_failed steady hread
    dsimp only
    by_cases hkind : (Failure.ofSettings e).kind = .notFound
    · rw [if_pos hkind]
      split
      · exact ((quiet_warn _).seq (quiet_pure _)).congr fun s => by simp [hgives, hkind]
      · exact ((quiet_pure ()).bind fun _ _ => quiet_pure _).congr fun s => by simp [hgives, hkind]
    · rw [if_neg hkind]
      exact (quiet_throw (Failure.ofSettings_ne_overflow e)).congr fun s => by simp [hgives, hkind]

theorem quiet_sharedSettings (steady : files.Steady) (r : Request) :
    Quiet (sharedSettings files r) fun settings =>
      ∃ file, GivesSettings files r.configName file ∧
        (∀ text ∈ r.indent, (indentOfText? text).isSome) ∧ settings = r.shared file := by
  unfold sharedSettings
  refine (quiet_fileSettings steady r.config).bind fun file _ => ?_
  dsimp only
  cases hindent : r.indent with
  | none =>
    refine (quiet_pure _).congr fun settings => ?_
    simp [Request.shared, hindent]
  | some text =>
    dsimp only
    cases hn : indentOfText? text with
    | none => exact (quiet_invalidInput _).congr fun settings => by simp [hn]
    | some n =>
      refine (quiet_pure _).congr fun settings => ?_
      simp [Request.shared, hindent, hn]

/-- The warning that there is no format of the name, which names the format that is kept. -/
def formatWarnings (name : Option String) (kept : Format) : List String :=
  match name with
  | none => []
  | some name =>
    match Format.ofText? name with
    | some _ => []
    | none =>
      ["Unknown output format " ++ name ++ ", using " ++ kept.friendlyName ++ " output"]

theorem runs_withFormat (settings : Settings) (name : Option String) :
    Runs (withFormat settings name)
      (.ok { settings with format := (name.bind Format.ofText?).getD settings.format })
      (formatWarnings name settings.format) .empty := by
  unfold withFormat formatWarnings
  split
  · exact runs_pure _
  · rename_i name
    cases hformat : Format.ofText? name with
    | none =>
      have hboth := (runs_warn ("Unknown output format " ++ name ++ ", using " ++
        settings.format.friendlyName ++ " output")).bind (f := fun _ => pure settings)
          (runs_pure settings)
      simpa [hformat] using hboth
    | some format => simpa [hformat] using runs_pure { settings with format := format }

theorem quiet_withFormat (settings : Settings) (format : Option String) :
    Quiet (withFormat settings format) fun s =>
      s = { settings with format := (format.bind Format.ofText?).getD settings.format } :=
  (runs_withFormat settings format).yields

theorem quiet_effectiveSettings (steady : files.Steady) (r : Request) :
    Quiet (effectiveSettings files r) fun settings =>
      ∃ file, GivesSettings files r.configName file ∧
        (∀ text ∈ r.indent, (indentOfText? text).isSome) ∧ settings = r.effective file := by
  unfold effectiveSettings
  refine ((quiet_sharedSettings steady r).bind fun settings _ =>
    (quiet_withFormat settings r.format).bind fun _ _ => quiet_pure _).congr fun settings => ?_
  constructor
  · rintro ⟨_, ⟨file, hfile, hindent, rfl⟩, _, rfl, rfl⟩
    refine ⟨file, hfile, hindent, ?_⟩
    unfold Request.effective Request.shared
    split <;> rfl
  · rintro ⟨file, hfile, hindent, rfl⟩
    refine ⟨_, ⟨file, hfile, hindent, rfl⟩, _, rfl, ?_⟩
    unfold Request.effective Request.shared
    split <;> rfl

/-- The options that every command knows are applied without a warning. -/
theorem Runs.sharedSettings {r : Request} {file : Settings} {warnings : List String}
    (h : Runs (fileSettings files r.config) (.ok file) warnings .empty)
    (valid : ∀ text ∈ r.indent, (indentOfText? text).isSome) :
    Runs (sharedSettings files r) (.ok (r.shared file)) warnings .empty := by
  have hpure := runs_pure (r.shared file)
  unfold Command.sharedSettings
  rw [← List.append_nil warnings]
  refine h.bind_quiet ?_
  cases hindent : r.indent with
  | none => simpa [Request.shared, hindent] using hpure
  | some text =>
    obtain ⟨n, hn⟩ := Option.isSome_iff_exists.mp (valid text hindent)
    simpa [Request.shared, hindent, hn] using hpure

theorem Runs.sharedSettings_error {r : Request} {file : Settings} {warnings : List String}
    (h : Runs (fileSettings files r.config) (.ok file) warnings .empty) {text : String}
    (indent : r.indent = some text) (invalid : indentOfText? text = none) :
    Runs (Command.sharedSettings files r)
      (.error (.invalidInput "Indentation must be a number of spaces")) warnings .empty := by
  unfold Command.sharedSettings
  rw [← List.append_nil warnings]
  refine h.bind_quiet ?_
  simpa only [indent, invalid] using runs_throw _

/-- The options of `dis` warn only of a name that is no format. -/
theorem Runs.effectiveSettings {r : Request} {file : Settings} {warnings : List String}
    (h : Runs (Command.sharedSettings files r) (.ok (r.shared file)) warnings .empty) :
    Runs (effectiveSettings files r) (.ok (r.effective file))
      (warnings ++ formatWarnings r.format file.format) .empty := by
  unfold Command.effectiveSettings
  refine h.bind_quiet ?_
  rw [← List.append_nil (formatWarnings r.format file.format)]
  refine (runs_withFormat (r.shared file) r.format).bind_quiet ?_
  have hpure := runs_pure (r.effective file)
  cases hhide : r.hideAddresses <;> simpa [Request.effective, Request.shared, hhide] using hpure

theorem quiet_addressOption (settings : Settings) (option text : String) :
    Quiet (addressOption settings option text) fun a =>
      Address.ofText? text settings.labelStem = some a := by
  unfold addressOption
  split
  · exact (quiet_pure _).congr fun a => by simp [*, eq_comm]
  · exact (quiet_invalidInput _).congr fun a => by simp [*]

theorem quiet_rangeOption {r : Request} (complete : r.stop.isSome → r.start.isSome)
    (settings : Settings) :
    Quiet (rangeOption settings r) fun range =>
      (∀ text ∈ r.start, (Address.ofText? text settings.labelStem).isSome) ∧
      (∀ text ∈ r.stop, (Address.ofText? text settings.labelStem).isSome) ∧
      range = r.range settings.labelStem := by
  unfold rangeOption
  cases hstart : r.start with
  | none =>
    have hstop : r.stop = none := by simpa [hstart] using complete
    refine (quiet_pure none).congr fun range => ?_
    simp [Request.range, hstart, hstop]
  | some start =>
    cases hstop : r.stop with
    | none =>
      refine ((quiet_addressOption settings "from" start).bind fun a _ =>
        quiet_pure (some (a, Address.last))).congr fun range => ?_
      cases ha : Address.ofText? start settings.labelStem <;>
        simp [Request.range, hstart, hstop, ha]
    | some stop =>
      refine ((quiet_addressOption settings "from" start).bind fun a _ =>
        (quiet_addressOption settings "to" stop).bind fun b _ =>
          quiet_pure (some (a, b))).congr fun range => ?_
      cases ha : Address.ofText? start settings.labelStem <;>
        cases hb : Address.ofText? stop settings.labelStem <;>
          simp [Request.range, hstart, hstop, ha, hb]

end Command

end Bytecode
