import Bytecode.Proofs.Command.Outcome
import Bytecode.Proofs.Command.Warnings
import Bytecode.Proofs.Json.Written

/-!
# Layers of settings

Each setting has three layers: an option of the command line, the settings file, and the default.
The topmost layer that has a value decides, for each setting on its own (`Request.layered`). What a
settings file says is a draft of which any part may be missing (`FileSays`); a file that does not
exist says nothing.

* `Settings.Spelled`: the texts of a settings file;
* `Layered`: how the layers work on a request, and on what it prints;
* `Unusable`: settings files that end the request;
* `run_layered`: all of it together.
-/

namespace Bytecode

open Json

/-! ## What a settings file says -/

namespace Settings

/-- The members of a settings file, with the texts of their valid values. -/
def slots : List (Slot Draft) :=
  [⟨"label_prefix", Draft.labelStem, fun v d => { d with labelStem := some v }, .text, StringText⟩,
   ⟨"show_addresses", Draft.showAddresses, fun v d => { d with showAddresses := some v }, .boolean,
    BooleanText⟩,
   ⟨"indent", Draft.indent, fun v d => { d with indent := some v }, indentDecoder,
    fun n text => n < UInt64.size ∧ IntegerText n text⟩,
   ⟨"format", Draft.format, fun v d => { d with format := some v }, formatDecoder,
    fun format text => ∃ name, Format.ofText? name = some format ∧ StringText name text⟩]

theorem accepts_indentDecoder :
    indentDecoder.Accepts fun n text => n < UInt64.size ∧ IntegerText n text := by
  rintro n text ⟨hn, htext⟩
  have hlt : n < 0x10000000000000000 := hn
  have hread : indentDecoder.Reads text (n : Int).toNat :=
    (Decoder.reads_integer htext (by omega) (by omega) (by omega) (by omega)).map _
  rwa [Int.toNat_natCast] at hread

theorem accepts_formatDecoder :
    formatDecoder.Accepts fun format text =>
      ∃ name, Format.ofText? name = some format ∧ StringText name text := by
  rintro format text ⟨name, hname, htext⟩
  obtain ⟨body, rfl, hbody⟩ := htext.quotes
  exact Decoder.reads_string hbody (by simp only [hname])

theorem lawful_slots : Lawful slots record.blank where
  names := by decide
  accepts := by
    simp only [slots, List.forall_mem_cons, List.not_mem_nil, false_implies, implies_true, and_true]
    exact ⟨Decoder.accepts_text, fun _ _ => Decoder.reads_boolean, accepts_indentDecoder,
      accepts_formatDecoder⟩
  get_blank := by simp [slots, record]
  get_set := by simp [slots]
  get_set_ne := by simp [slots]
  ext := by
    rintro ⟨p, a, n, f⟩ ⟨p', a', n', f'⟩ h
    simpa [slots] using h

/-- The texts of a settings file. -/
def Spelled (d : Draft) : List UInt8 → Prop := DraftText slots d

/-- What a file gives that says `d`: the defaults for all that is missing. -/
def ofDraft (d : Draft) : Settings where
  labelStem := d.labelStem.getD "loc"
  showAddresses := d.showAddresses.getD true
  indent := d.indent.getD 4
  format := d.format.getD .text

theorem accepts_decoder {d : Draft} {source : Source} (h : DocumentText (Spelled d) source) :
    decoder.document source = .ok (ofDraft d) := by
  obtain ⟨before, text, after, hbefore, hafter, htext, rfl⟩ := h
  exact Decoder.document_of_reads (lawful_slots.reads rfl htext rfl) hbefore hafter

end Settings

namespace Command

variable {files : Opener} {r : Request}

/-- What the settings file says: nothing if it does not exist, else what its text is a text of. -/
inductive FileSays (files : Opener) (name : String) : Settings.Draft → Prop where
  | missing {e : SystemError} (fails : files name = .error e) (kind : e.kind = .notFound) :
      FileSays files name {}
  | held {source : Source} {d : Settings.Draft} (opens : files name = .ok source)
      (spelled : DocumentText (Settings.Spelled d) source) : FileSays files name d

/-! ## The layers -/

/-- The options over what the file says over the defaults. -/
def Request.layered (r : Request) (d : Settings.Draft) : Settings where
  labelStem := (r.labelStem.or d.labelStem).getD "loc"
  showAddresses := ((if r.hideAddresses then some false else none).or d.showAddresses).getD true
  indent := ((r.indent.bind indentOfText?).or d.indent).getD 4
  format := ((r.format.bind Format.ofText?).or d.format).getD .text

theorem Request.effective_ofDraft (r : Request) (d : Settings.Draft) :
    r.effective (.ofDraft d) = r.layered d := by
  unfold layered
  rw [Option.getD_or, Option.getD_or, Option.getD_or, Option.getD_or]
  cases hhide : r.hideAddresses <;> simp [effective, shared, Settings.ofDraft, hhide]

/-- The warning that the settings file that was named does not exist. -/
def configWarnings (files : Opener) (r : Request) : List String :=
  match files r.configName, r.config with
  | .error _, some name => ["Config file " ++ name ++ " does not exist, using defaults"]
  | _, _ => []

theorem read_of_ok {name : String} {source : Source} (opens : files name = .ok source) :
    Settings.read files name = (Settings.decoder.document source).mapError .document := by
  simp only [Settings.read, opens]

theorem read_of_error {name : String} {e : SystemError} (fails : files name = .error e) :
    Settings.read files name = .error (.system e) := by
  simp only [Settings.read, fails]

theorem runs_fileSettings_of_content {d : Settings.Draft} (h : FileSays files r.configName d) :
    Runs (fileSettings files r.config) (.ok (.ofDraft d)) (configWarnings files r) .empty := by
  unfold fileSettings configWarnings
  rw [Request.configName] at h ⊢
  cases h with
  | @missing e fails kind =>
    have hkind : (Failure.ofSettings (.system e)).kind = .notFound := kind
    have hdefaults := runs_pure (Settings.ofDraft {})
    simp only [read_of_error fails, fails, hkind, ↓reduceIte]
    cases hconfig : r.config with
    | none => exact hdefaults
    | some name =>
      exact (runs_warn ("Config file " ++ name ++ " does not exist, using defaults")).bind_quiet
        (f := fun _ => (pure {} : Session Settings)) hdefaults
  | @held source d opens spelled =>
    simp only [read_of_ok opens, Settings.accepts_decoder spelled, opens]
    exact runs_pure _

/-- How the layers work on a request whose settings file says `d`. -/
structure Layered (files : Opener) (r : Request) (d : Settings.Draft) : Prop where
  /-- The settings that `dis` uses, and all warnings about them. -/
  settings : Runs (effectiveSettings files r) (.ok (r.layered d))
    (configWarnings files r ++ formatWarnings r.format (d.format.getD .text)) .empty
  /-- With them the listing is shown, and the ends of its range are read with their stem. -/
  shows : r.verb = .disassemble →
    ((r.run files).exitCode = 0 ↔
      ∃ l, (Holds files r l ∧ RangeReady r (r.layered d).labelStem l) ∧
        ¬ Render.Overflows (r.layered d) (r.shown (r.layered d) l)) ∧
    ∀ l, Holds files r l ∧ RangeReady r (r.layered d).labelStem l →
      Displays r (r.layered d) l (r.run files)
  /-- The branches are listed with labels of the same stem. -/
  lists : r.verb = .branches →
    ((r.run files).exitCode = 0 ↔ ∃ l, Holds files r l) ∧
    ∀ l, Holds files r l → Lists (r.layered d) l (r.run files).out

/-- The list of branches looks at the stem alone. -/
theorem branchesText_congr {settings settings' : Settings}
    (h : settings.labelStem = settings'.labelStem) (store : Store) :
    Render.branchesText settings store = Render.branchesText settings' store := by
  unfold Render.branchesText Render.branchLine Render.destinationText
  rw [h]

/-- What `dis` does if its settings are known. -/
theorem shows_of_gives {settings : Settings}
    (h : Quiet (effectiveSettings files r) fun s => s = settings)
    (complete : r.stop.isSome → r.start.isSome) (verb : r.verb = .disassemble) :
    ((r.run files).exitCode = 0 ↔
      ∃ l, (Holds files r l ∧ RangeReady r settings.labelStem l) ∧
        ¬ Render.Overflows settings (r.shown settings l)) ∧
    ∀ l, Holds files r l ∧ RangeReady r settings.labelStem l →
      Displays r settings l (r.run files) := by
  have hall : (∃ l, Holds files r l ∧ RangeReady r settings.labelStem l) ∧
        (∀ l, Holds files r l ∧ RangeReady r settings.labelStem l →
          Displays r settings l (r.run files)) ∨
      (r.run files).exitCode = 1 ∧ (r.run files).out = ByteArray.empty ∧
        ∀ l, ¬ (Holds files r l ∧ RangeReady r settings.labelStem l) := by
    rcases h.displays complete verb with ⟨⟨⟨_, l⟩, rfl, hl⟩, hdisplays⟩ | ⟨hcode, hempty, hnone⟩
    · exact .inl ⟨⟨l, hl⟩, fun l hl => hdisplays (_, l) ⟨rfl, hl⟩⟩
    · exact .inr ⟨hcode, hempty, fun l hl => hnone (settings, l) ⟨rfl, hl⟩⟩
  refine ⟨(decided_of_displays hall).success, fun l hl => ?_⟩
  rcases hall with ⟨_, hdisplays⟩ | ⟨_, _, hnone⟩
  · exact hdisplays l hl
  · exact absurd hl (hnone l)

theorem layered_of_complete (complete : r.Complete) {d : Settings.Draft}
    (content : FileSays files r.configName d)
    (valid : ∀ text ∈ r.indent, (indentOfText? text).isSome) : Layered files r d := by
  have hshared := (runs_fileSettings_of_content content).sharedSettings valid
  have heffective := hshared.effectiveSettings
  rw [r.effective_ofDraft] at heffective
  refine ⟨heffective, fun verb => ?_, fun verb => ?_⟩
  · exact shows_of_gives heffective.yields (complete verb) verb
  · refine Yields.decided ?_ fun l h => ⟨_, _, (l.store_eq_ok_iff _).mpr ⟨h.2, rfl⟩, rfl⟩
    have hstem : (r.shared (.ofDraft d)).labelStem = (r.layered d).labelStem := by
      rw [← r.effective_ofDraft]
      rfl
    rw [session, verb]
    refine (Quiet.yields_listBranches hshared.yields).congr fun _ out => ?_
    simp only [exists_eq_left, Lists, branchesText_congr hstem]

/-! ## What ends a request -/

/-- A settings file that ends the request: it cannot be opened although it exists, or what it holds
cannot be decoded. Only what is no fault of the document is left out, a reader that reports that the
file is gone after it was opened; no file of a folder does (`Folder.steady_openFile`). -/
inductive Unusable (files : Opener) (name : String) : Failure → Prop where
  | closed {e : SystemError} (fails : files name = .error e) (kind : e.kind ≠ .notFound) :
      Unusable files name (.system e)
  | undecodable {source : Source} {e : Json.Error} (opens : files name = .ok source)
      (fails : Settings.decoder.document source = .error e)
      (present : ∀ error, e.cause = .source error → error.kind ≠ .notFound) :
      Unusable files name (.ofDocument e)

theorem Unusable.ne_overflow {name : String} {failure : Failure} (h : Unusable files name failure) :
    failure ≠ .overflow := by
  cases h with
  | closed _ _ => exact nofun
  | @undecodable _ e _ _ _ => exact Failure.ofDocument_ne_overflow e

theorem runs_session_error {failure : Failure} {warnings : List String}
    (h : Runs (sharedSettings files r) (.error failure) warnings .empty) :
    Runs (session files r) (.error failure) warnings .empty := by
  unfold session
  cases r.verb with
  | disassemble => exact Runs.bind_error (Runs.bind_error h)
  | branches => exact h.bind_error

theorem runs_fileSettings_of_unusable {failure : Failure}
    (h : Unusable files r.configName failure) :
    Runs (fileSettings files r.config) (.error failure) [] .empty := by
  unfold fileSettings
  rw [Request.configName] at h
  cases h with
  | @closed e fails kind =>
    have hkind : ¬ (Failure.ofSettings (.system e)).kind = .notFound := kind
    simp only [read_of_error fails, if_neg hkind]
    exact runs_throw _
  | @undecodable source e opens fails present =>
    have hread : Settings.read files (r.config.getD defaultConfig) = .error (.document e) := by
      rw [read_of_ok opens, fails]
      rfl
    have hkind : ¬ (Failure.ofSettings (.document e)).kind = .notFound := by
      intro kind
      obtain ⟨error, hcause, hmissing⟩ := kind_ofDocument kind
      exact present error hcause hmissing
    simp only [hread, if_neg hkind]
    exact runs_throw _

/-- An indentation that is no number of spaces ends the request, whatever the settings file is. -/
theorem exists_runs_error_of_indent (files : Opener) {text : String} (indent : r.indent = some text)
    (invalid : indentOfText? text = none) :
    ∃ failure warnings, Runs (session files r) (.error failure) warnings .empty ∧
      failure ≠ .overflow := by
  obtain ⟨result, warnings, hfile, -, hreported⟩ := runs_fileSettings files r.config
  cases result with
  | error e => exact ⟨e, warnings, runs_session_error hfile.bind_error, hreported e rfl⟩
  | ok file =>
    exact ⟨_, warnings, runs_session_error (hfile.sharedSettings_error indent invalid), nofun⟩

/-! ## A name that is no format -/

theorem alike_effectiveSettings (files : Opener) {name : String} (format : r.format = some name)
    (unknown : Format.ofText? name = none) :
    Alike (effectiveSettings files r) (effectiveSettings files { r with format := none }) := by
  obtain ⟨result, warnings, hshared, -⟩ := runs_sharedSettings files r
  refine hshared.alike.bind fun settings => ?_
  have hnamed := runs_withFormat settings r.format
  rw [format, Option.bind_some, unknown] at hnamed
  have hkept : Alike (withFormat settings r.format) (withFormat settings none) := by
    rw [format]
    exact ⟨_, _, _, _, hnamed, runs_withFormat settings none⟩
  exact hkept.bind fun settings => (runs_pure _).alike

theorem alike_session (files : Opener) (complete : r.Complete) {name : String}
    (format : r.format = some name) (unknown : Format.ofText? name = none) :
    Alike (session files r) (session files { r with format := none }) := by
  unfold session
  cases hverb : r.verb with
  | disassemble =>
    exact (alike_effectiveSettings files format unknown).bind fun settings =>
      (quiet_preparedListing (complete hverb) settings).alike.bind fun printing =>
        (runs_print printing).alike
  | branches =>
    -- The list of branches does not look at the name of a format at all.
    obtain ⟨result, warnings, hshared, -⟩ := runs_sharedSettings files r
    exact hshared.alike.bind fun settings => ((quiet_orFail
      Failure.ofLoad_ne_overflow _).yields_bind fun store _ =>
      (yields_print_write _).warned (quiet_forM_warn strayWarning _)).alike

/-! ## Outcomes -/

/-- **Each setting is decided by its topmost layer.** For every settings file that is missing or is
a text of valid settings, and for all options with a number of spaces as the indentation, if any:
each setting that `dis` uses is that of its option, else that of the file, else the default, and the
stem that labels are printed with is the one by which the ends of a range are read and by which the
branches are labelled. A name that is no format has one effect, a warning. A settings file that
cannot be used and an indentation that is no number end the request before anything is printed,
whatever else was given. -/
theorem run_layered (files : Opener) {args : List String} {r : Request}
    (parsed : Request.ofArguments args = .ok r) :
    (∀ d, FileSays files r.configName d → (∀ text ∈ r.indent, (indentOfText? text).isSome) →
      Layered files r d) ∧
    (∀ name, r.format = some name → Format.ofText? name = none →
      let plain := { r with format := none }
      (r.run files).exitCode = (plain.run files).exitCode ∧
        (r.run files).out = (plain.run files).out) ∧
    (∀ failure, Unusable files r.configName failure →
      r.run files = ⟨1, .empty, "Error: " ++ failure.debugText ++ "\n"⟩) ∧
    (∀ text, r.indent = some text → indentOfText? text = none →
      (r.run files).exitCode = 1 ∧ (r.run files).out = .empty) := by
  have complete : r.Complete := Request.start_of_stop parsed
  refine ⟨fun d => layered_of_complete complete, fun name format unknown => ?_,
    fun failure unusable => ?_, fun text indent invalid => ?_⟩
  · exact (alike_session files complete format unknown).outcome
  · have hshared : Runs (sharedSettings files r) (.error failure) [] .empty :=
      (runs_fileSettings_of_unusable unusable).bind_error
    rw [(runs_session_error hshared).outcome_error unusable.ne_overflow]
    rfl
  · obtain ⟨failure, warnings, hrun, hreported⟩ := exists_runs_error_of_indent files indent invalid
    rw [hrun.outcome_error hreported]
    exact ⟨rfl, rfl⟩

/-- All three layers decide about something: the stem and the addresses are set by options, of which
one is over the file, the indentation and the format by the file, and a member of another name and a
name that is no format by nobody. -/
theorem run_layered_of_all :
    let config : Value := .object [("note", .list []), ("format", .string "JSON"),
      ("label_prefix", .string "at"), ("indent", .number (.integer 2))]
    let files : Opener := fun name =>
      if name = "c.json" then .ok ⟨Text.encode (config.write .pretty 0), .complete⟩
      else .error .noSuchFile
    let args := ["--label-prefix", "L", "dis", "code.json", "--config", "c.json", "--no-addresses",
      "--format", "html"]
    let r : Request :=
      { verb := .disassemble, listing := "code.json", config := some "c.json",
        labelStem := some "L", format := some "html", hideAddresses := true }
    Request.ofArguments args = .ok r ∧
      Runs (effectiveSettings files r)
        (.ok { labelStem := "L", showAddresses := false, indent := 2, format := .json })
        ["Unknown output format html, using JSON output"] .empty := by
  intro config files args r
  have parsed : Request.ofArguments args = .ok r := by decide
  let d : Settings.Draft := { labelStem := some "at", indent := some 2, format := some .json }
  have hspells : config.Spells (Settings.Spelled d) := by
    refine Says.spells ⟨?_, ?_⟩
    · have hformat : (Value.string "JSON").Spells fun text =>
          ∃ name, Format.ofText? name = some .json ∧ StringText name text :=
        fun style hstyle depth =>
          ⟨"JSON", by decide, Value.spells_string "JSON" style hstyle depth⟩
      have hindent : (Value.number (.integer 2)).Spells fun text =>
          2 < UInt64.size ∧ IntegerText 2 text :=
        fun style hstyle depth => ⟨by decide, Value.spells_integer 2 style hstyle depth⟩
      simpa [Settings.slots, valuesOf, d] using ⟨Value.spells_string "at", hindent, hformat⟩
    · have hempty : (Value.list []).Spells WellFormed := Value.wellFormed_list (by simp)
      simpa [Settings.slots] using hempty
  have content : FileSays files r.configName d :=
    .held rfl (hspells.documentText Style.spaced_pretty)
  exact ⟨parsed, ((run_layered files parsed).1 d content (by decide)).settings⟩

end Command

end Bytecode
