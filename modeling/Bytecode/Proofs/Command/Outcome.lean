import Bytecode.Proofs.Command.Arguments
import Bytecode.Proofs.Command.Stages
import Bytecode.Proofs.Document.Loading
import Bytecode.Proofs.Render.Output
import Bytecode.Proofs.Render.Overflow
import Bytecode.Proofs.Store.Queries

/-!
# All or nothing

What a request prints is decided before the first byte is printed: each stage before it is a quiet
session, so a request that fails leaves standard output empty, and one that succeeds has printed the
whole listing. In between there is one ending: `dis` is stopped at its first line if that is to be
indented by more spaces than a text can have.

* `Ready`, `RangeReady`: what has to be given, which is exact;
* `Displays`, `ListsBranches`: what the two commands do then;
* `Decided`: how the exit code follows;
* `run_all_or_nothing`: all of it together.
-/

namespace Bytecode.Command

variable {files : Opener}

/-! ## Conditions -/

/-- The conditions that both commands share: on the settings file, the indentation and the listing.
-/
structure Ready (files : Opener) (r : Request) (file : Settings) (l : Listing) : Prop where
  settings : GivesSettings files r.configName file
  indent : ∀ text ∈ r.indent, (indentOfText? text).isSome
  listing : GivesListing files r.listing l
  rising : l.addresses.Pairwise (· < ·)

/-- The conditions on a range: both ends can be read, and the start is the address of an entry. -/
structure RangeReady (r : Request) (stem : String) (l : Listing) : Prop where
  start : ∀ text ∈ r.start, ∃ a, Address.ofText? text stem = some a ∧ a ∈ l.addresses
  stop : ∀ text ∈ r.stop, (Address.ofText? text stem).isSome

/-! ## The commands -/

/-- The addresses that `dis` shows with these settings. -/
def Request.shown (r : Request) (settings : Settings) (l : Listing) : List Address :=
  Render.shownAddresses (r.range settings.labelStem) l.addresses

/-- What `dis` does with settings of its own and a listing in which its range starts. -/
inductive Displays (r : Request) (settings : Settings) (l : Listing) (outcome : Outcome) :
    Prop where
  /-- It prints the listing, or the range of it that the options name. -/
  | whole {store : Store} {written : Output Unit} (loads : l.store = .ok store)
      (fits : ¬ Render.Overflows settings (r.shown settings l))
      (writes : Render.writeListing settings store (r.range settings.labelStem) = .ok written)
      (exitCode : outcome.exitCode = 0) (out : outcome.out = (written.run none).1)
  /-- The program is stopped at the first instruction, after it has printed its label, if any. -/
  | stopped {store : Store} {a : Address} {rest : List Address} (loads : l.store = .ok store)
      (overflows : Render.Overflows settings (r.shown settings l))
      (first : r.shown settings l = a :: rest)
      (exitCode : outcome.exitCode = 101)
      (out : outcome.out = (Render.labelLine settings store a).toUTF8)

/-- What `branches` prints for a listing. -/
def ListsBranches (r : Request) (file : Settings) (l : Listing) (out : ByteArray) : Prop :=
  ∃ store, l.store = .ok store ∧ out = (Render.branchesText (r.shared file) store).toUTF8

theorem rangeReady_iff (r : Request) (stem : String) (l : Listing) :
    RangeReady r stem l ↔
      (∀ text ∈ r.start, (Address.ofText? text stem).isSome) ∧
      (∀ text ∈ r.stop, (Address.ofText? text stem).isSome) ∧
      ∀ q ∈ r.range stem, q.1 ∈ l.addresses := by
  have hstart : (∀ text ∈ r.start, ∃ a, Address.ofText? text stem = some a ∧ a ∈ l.addresses) ↔
      (∀ text ∈ r.start, (Address.ofText? text stem).isSome) ∧
        ∀ q ∈ r.range stem, q.1 ∈ l.addresses := by
    unfold Request.range
    cases r.start with
    | none => simp
    | some text => cases ha : Address.ofText? text stem <;> simp [ha]
  constructor
  · rintro ⟨start, stop⟩
    exact ⟨(hstart.mp start).1, stop, (hstart.mp start).2⟩
  · rintro ⟨start, stop, stored⟩
    exact ⟨hstart.mpr ⟨start, stored⟩, stop⟩

/-- The listing of a request, with addresses that rise. -/
def Holds (files : Opener) (r : Request) (l : Listing) : Prop :=
  GivesListing files r.listing l ∧ l.addresses.Pairwise (· < ·)

/-- What is to be printed for a listing with settings of its own. -/
def Prepares (r : Request) (settings : Settings) (l : Listing) (printing : Printing Unit) : Prop :=
  ∃ store, l.store = .ok store ∧
    Render.printListing settings store (r.range settings.labelStem) = .ok printing

/-- A range that is ready is written, from the store of the listing. -/
theorem RangeReady.exists_written {r : Request} {settings : Settings} {l : Listing}
    (range : RangeReady r settings.labelStem l) (rising : l.addresses.Pairwise (· < ·)) :
    ∃ store written, l.store = .ok store ∧ store.Sound ∧ store.addresses = l.addresses ∧
      Render.writeListing settings store (r.range settings.labelStem) = .ok written := by
  have hstore := (l.store_eq_ok_iff _).mpr ⟨rising, rfl⟩
  obtain ⟨sound, haddresses⟩ := Listing.sound_of_store hstore
  have hstored := ((rangeReady_iff _ _ _).mp range).2.2
  rw [← haddresses] at hstored
  obtain ⟨written, hwritten⟩ := (Render.exists_writeListing_iff settings sound _).mpr hstored
  exact ⟨_, written, hstore, sound, haddresses, hwritten⟩

theorem quiet_preparedListing {r : Request} (complete : r.stop.isSome → r.start.isSome)
    (settings : Settings) :
    Quiet (preparedListing files r settings) fun printing => ∃ l,
      (Holds files r l ∧ RangeReady r settings.labelStem l) ∧ Prepares r settings l printing := by
  unfold preparedListing
  refine ((quiet_orFail Failure.ofLoad_ne_overflow _).bind fun store _ =>
    (quiet_rangeOption complete settings).bind fun range _ =>
      Quiet.after_warning _ (quiet_orFail Failure.store_ne_overflow _)).congr fun printing => ?_
  constructor
  · rintro ⟨store, hload, _, ⟨hstart, hstop, rfl⟩, hprinting⟩
    obtain ⟨l, hl, hstore⟩ := (loadListing_eq_ok_iff store).mp hload
    obtain ⟨sound, haddresses⟩ := Listing.sound_of_store hstore
    -- That the range can be printed tells that it starts at an address of the listing.
    have hstored := (Render.exists_writeListing_iff settings sound _).mp
      ((Render.exists_printListing_iff settings).mp ⟨printing, hprinting⟩)
    rw [haddresses] at hstored
    exact ⟨l, ⟨⟨hl, ((l.store_eq_ok_iff store).mp hstore).1⟩,
      (rangeReady_iff _ _ _).mpr ⟨hstart, hstop, hstored⟩⟩, store, hstore, hprinting⟩
  · rintro ⟨l, ⟨⟨hl, _⟩, range⟩, store, hstore, hprinting⟩
    obtain ⟨hstart, hstop, _⟩ := (rangeReady_iff _ _ _).mp range
    exact ⟨store, (loadListing_eq_ok_iff store).mpr ⟨l, hl, hstore⟩, _, ⟨hstart, hstop, rfl⟩,
      hprinting⟩

theorem disassemble_eq (files : Opener) (r : Request) :
    disassemble files r =
      effectiveSettings files r >>= preparedListing files r >>= print :=
  (bind_assoc _ _ _).symm

/-! ## What `dis` does -/

theorem displays_of_prepares {r : Request} {settings : Settings} {l : Listing}
    {printing : Printing Unit} {outcome : Outcome} (rising : l.addresses.Pairwise (· < ·))
    (range : RangeReady r settings.labelStem l) (hprepares : Prepares r settings l printing)
    (printed : Printed printing outcome) : Displays r settings l outcome := by
  obtain ⟨store, written, loads, sound, haddresses, hwritten⟩ := range.exists_written rising
  obtain ⟨other, hother, hprinting⟩ := hprepares
  obtain rfl : store = other := Except.ok.inj (loads.symm.trans hother)
  by_cases hover : Render.Overflows settings (r.shown settings l)
  · have hstops := hover
    rw [Request.shown, ← haddresses] at hstops
    obtain ⟨a, rest, stopped, hfirst, hstopped, hrun⟩ :=
      Render.printListing_overflow sound hwritten hstops
    rw [haddresses] at hfirst
    obtain rfl : stopped = printing := Except.ok.inj (hstopped.symm.trans hprinting)
    obtain ⟨exitCode, out⟩ := printed.of_overflow hrun
    exact .stopped loads hover hfirst exitCode out
  · have hfits := hover
    rw [Request.shown, ← haddresses] at hfits
    have hwhole := Render.printListing_eq sound hwritten hfits
    obtain rfl : written.printing = printing := Except.ok.inj (hwhole.symm.trans hprinting)
    obtain ⟨exitCode, out⟩ := printed.of_output
    exact .whole loads hover hwritten exitCode out

/-- The settings are given, and the listing is one in which the range starts. -/
def Showable (files : Opener) (r : Request) (gives : Settings → Prop) (q : Settings × Listing) :
    Prop :=
  gives q.1 ∧ Holds files r q.2 ∧ RangeReady r q.1.labelStem q.2

/-- Whatever settings come out of the first stage, the listing is shown with them, and the ends of
its range are read with their stem. -/
theorem Quiet.displays {r : Request} {gives : Settings → Prop}
    (h : Quiet (effectiveSettings files r) gives) (complete : r.stop.isSome → r.start.isSome)
    (verb : r.verb = .disassemble) :
    (∃ q, Showable files r gives q) ∧
      (∀ q, Showable files r gives q → Displays r q.1 q.2 (r.run files)) ∨
    (r.run files).exitCode = 1 ∧ (r.run files).out = ByteArray.empty ∧
      ∀ q, ¬ Showable files r gives q := by
  have hprepared : Quiet (effectiveSettings files r >>= preparedListing files r) fun printing =>
      ∃ q, Showable files r gives q ∧ Prepares r q.1 q.2 printing := by
    refine (h.bind fun settings _ => quiet_preparedListing complete settings).congr
      fun printing => ?_
    simp only [Showable, Prod.exists, and_assoc, exists_and_left]
  have hends : session files r =
      effectiveSettings files r >>= preparedListing files r >>= print := by
    rw [session, verb]
    exact disassemble_eq files r
  have htold : ∀ q, Showable files r gives q → ∃ printing, Prepares r q.1 q.2 printing := by
    rintro q ⟨_, ⟨_, rising⟩, range⟩
    obtain ⟨store, written, loads, _, _, hwritten⟩ := range.exists_written rising
    obtain ⟨printing, hprinting⟩ :=
      (Render.exists_printListing_iff q.1).mpr ⟨written, hwritten⟩
    exact ⟨printing, store, loads, hprinting⟩
  rcases hprepared.printed_or_refused hends htold with ⟨hsome, hall⟩ | hrefused
  · refine .inl ⟨hsome, fun q hq => ?_⟩
    obtain ⟨printing, hprepares, printed⟩ := hall q hq
    exact displays_of_prepares hq.2.1.2 hq.2.2 hprepares printed
  · exact .inr hrefused

/-! ## What `branches` does -/

theorem yields_print_write (text : String) :
    Yields (print (Output.write text).printing) fun _ out => out = text.toUTF8 :=
  (yields_print_output _).congr fun _ _ => by rw [(Output.writes_write text).run_none]

/-- What `branches` prints with settings of its own. -/
def Lists (settings : Settings) (l : Listing) (out : ByteArray) : Prop :=
  ∃ store, l.store = .ok store ∧ out = (Render.branchesText settings store).toUTF8

/-- Whatever settings come out of the first stage, the branches are listed with them. -/
theorem Quiet.yields_listBranches {r : Request} {gives : Settings → Prop}
    (h : Quiet (sharedSettings files r) gives) :
    Yields (listBranches files r) fun _ out => ∃ settings, gives settings ∧
      ∃ l, Holds files r l ∧ Lists settings l out := by
  unfold listBranches
  refine (h.yields_bind fun settings _ =>
    (quiet_orFail Failure.ofLoad_ne_overflow _).yields_bind fun store _ =>
      (yields_print_write _).warned (quiet_forM_warn strayWarning _)).congr fun _ out => ?_
  constructor
  · rintro ⟨settings, hgives, store, hload, rfl⟩
    obtain ⟨l, hl, hstore⟩ := (loadListing_eq_ok_iff store).mp hload
    exact ⟨settings, hgives, l, ⟨hl, ((l.store_eq_ok_iff store).mp hstore).1⟩, store, hstore, rfl⟩
  · rintro ⟨settings, hgives, l, ⟨hl, _⟩, store, hstore, rfl⟩
    exact ⟨settings, hgives, store, (loadListing_eq_ok_iff store).mpr ⟨l, hl, hstore⟩, rfl⟩

theorem yields_listBranches (steady : files.Steady) (r : Request) :
    Yields (listBranches files r) fun _ out => ∃ q : Settings × Listing,
      Ready files r q.1 q.2 ∧ ListsBranches r q.1 q.2 out := by
  refine (quiet_sharedSettings steady r).yields_listBranches.congr fun _ out => ?_
  constructor
  · rintro ⟨_, ⟨file, hfile, hindent, rfl⟩, l, ⟨hl, rising⟩, hlists⟩
    exact ⟨(file, l), ⟨hfile, hindent, hl, rising⟩, hlists⟩
  · rintro ⟨⟨file, l⟩, ready, hlists⟩
    exact ⟨_, ⟨file, ready.settings, ready.indent, rfl⟩, l, ⟨ready.listing, ready.rising⟩, hlists⟩

/-! ## Exit codes -/

theorem Displays.exitCode_eq_zero_iff {r : Request} {settings : Settings} {l : Listing}
    {outcome : Outcome} (h : Displays r settings l outcome) :
    outcome.exitCode = 0 ↔ ¬ Render.Overflows settings (r.shown settings l) := by
  cases h with
  | whole _ fits _ exitCode _ => exact iff_of_true exitCode fits
  | stopped _ overflows _ exitCode _ =>
    rw [exitCode]
    exact iff_of_false (by decide) (not_not_intro overflows)

theorem Displays.exitCode_eq_stopped_iff {r : Request} {settings : Settings} {l : Listing}
    {outcome : Outcome} (h : Displays r settings l outcome) :
    outcome.exitCode = 101 ↔ Render.Overflows settings (r.shown settings l) := by
  cases h with
  | whole _ fits _ exitCode _ =>
    rw [exitCode]
    exact iff_of_false (by decide) fits
  | stopped _ overflows _ exitCode _ => exact iff_of_true exitCode overflows

theorem Displays.exitCode_ne_one {r : Request} {settings : Settings} {l : Listing}
    {outcome : Outcome} (h : Displays r settings l outcome) : outcome.exitCode ≠ 1 := by
  cases h with
  | whole _ _ _ exitCode _ => rw [exitCode]; decide
  | stopped _ _ _ exitCode _ => rw [exitCode]; decide

/-- How the exit code of a request is decided: `holds` tells what has to be given, and `stops` where
the program is stopped all the same. -/
structure Decided {ι : Type} (holds stops : ι → Prop) (outcome : Outcome) : Prop where
  success : outcome.exitCode = 0 ↔ ∃ i, holds i ∧ ¬ stops i
  stopped : outcome.exitCode = 101 ↔ ∃ i, holds i ∧ stops i
  failure : outcome.exitCode = 1 ↔ ∀ i, ¬ holds i
  /-- A failure leaves standard output empty. -/
  silent : outcome.exitCode = 1 → outcome.out = ByteArray.empty

section

variable {ι : Type} {holds stops : ι → Prop} {outcome : Outcome}

theorem decided_of_failure (failed : outcome.exitCode = 1) (silent : outcome.out = ByteArray.empty)
    (hnone : ∀ i, ¬ holds i) : Decided holds stops outcome where
  success := by
    rw [failed]
    refine iff_of_false (by decide) ?_
    rintro ⟨i, hi, _⟩
    exact hnone i hi
  stopped := by
    rw [failed]
    refine iff_of_false (by decide) ?_
    rintro ⟨i, hi, _⟩
    exact hnone i hi
  failure := iff_of_true failed hnone
  silent _ := silent

theorem decided_of_exists (hsome : ∃ i, holds i)
    (goes : ∀ i, holds i → (outcome.exitCode = 0 ↔ ¬ stops i))
    (stopped : ∀ i, holds i → (outcome.exitCode = 101 ↔ stops i))
    (reached : outcome.exitCode ≠ 1) : Decided holds stops outcome := by
  obtain ⟨i, hi⟩ := hsome
  refine ⟨⟨fun hcode => ⟨i, hi, (goes i hi).mp hcode⟩, ?_⟩,
    ⟨fun hcode => ⟨i, hi, (stopped i hi).mp hcode⟩, ?_⟩,
    iff_of_false reached fun hnone => hnone i hi, fun hcode => absurd hcode reached⟩
  · rintro ⟨j, hj, hgoes⟩
    exact (goes j hj).mpr hgoes
  · rintro ⟨j, hj, hstops⟩
    exact (stopped j hj).mpr hstops

/-- What `dis` does decides about its exit code. -/
theorem decided_of_displays {r : Request} {settings : ι → Settings} {listing : ι → Listing}
    (h : (∃ i, holds i) ∧ (∀ i, holds i → Displays r (settings i) (listing i) outcome) ∨
      outcome.exitCode = 1 ∧ outcome.out = ByteArray.empty ∧ ∀ i, ¬ holds i) :
    Decided holds (fun i => Render.Overflows (settings i) (r.shown (settings i) (listing i)))
      outcome := by
  rcases h with ⟨hsome, hall⟩ | ⟨hcode, hempty, hnone⟩
  · refine decided_of_exists hsome (fun i hi => (hall i hi).exitCode_eq_zero_iff)
      (fun i hi => (hall i hi).exitCode_eq_stopped_iff) ?_
    obtain ⟨i, hi⟩ := hsome
    exact (hall i hi).exitCode_ne_one
  · exact decided_of_failure hcode hempty hnone

theorem Decided.exitCode_cases (h : Decided holds stops outcome) :
    outcome.exitCode = 0 ∨ outcome.exitCode = 1 ∨ outcome.exitCode = 101 := by
  by_cases hgoes : ∃ i, holds i ∧ ¬ stops i
  · exact .inl (h.success.mpr hgoes)
  by_cases hstops : ∃ i, holds i ∧ stops i
  · exact .inr (.inr (h.stopped.mpr hstops))
  · refine .inr (.inl (h.failure.mpr fun i hi => ?_))
    by_cases hstop : stops i
    · exact hstops ⟨i, hi, hstop⟩
    · exact hgoes ⟨i, hi, hstop⟩

/-- Two requests of which the same is asked end alike. -/
theorem Decided.exitCode_eq {holds' stops' : ι → Prop} {other : Outcome}
    (h : Decided holds stops outcome) (h' : Decided holds' stops' other)
    (hholds : ∀ i, holds i ↔ holds' i) (hstops : ∀ i, stops i ↔ stops' i) :
    outcome.exitCode = other.exitCode := by
  obtain rfl : holds = holds' := funext fun i => propext (hholds i)
  obtain rfl : stops = stops' := funext fun i => propext (hstops i)
  rcases h.exitCode_cases with hcode | hcode | hcode
  · rw [hcode, h'.success.mpr (h.success.mp hcode)]
  · rw [hcode, h'.failure.mpr (h.failure.mp hcode)]
  · rw [hcode, h'.stopped.mpr (h.stopped.mp hcode)]

end

/-! ## Outcomes -/

/-- An end of a range comes with a start. -/
def Request.Complete (r : Request) : Prop :=
  r.verb = .disassemble → r.stop.isSome → r.start.isSome

/-- All that has to be given: what the settings file holds, and the listing. -/
def Admits (files : Opener) (r : Request) (q : Settings × Listing) : Prop :=
  Ready files r q.1 q.2 ∧
    (r.verb = .disassemble → RangeReady r (r.effective q.1).labelStem q.2)

/-- The program is stopped at the first line, since the indentation is longer than a text. -/
def Stops (r : Request) (q : Settings × Listing) : Prop :=
  r.verb = .disassemble ∧
    Render.Overflows (r.effective q.1) (r.shown (r.effective q.1) q.2)

/-- What has to be given does not depend on the name of a format. -/
theorem admits_format_iff {r : Request} (name : Option String) (q : Settings × Listing) :
    Admits files { r with format := name } q ↔ Admits files r q := by
  constructor
  · rintro ⟨⟨settings, indent, listing, rising⟩, range⟩
    exact ⟨⟨settings, indent, listing, rising⟩, fun verb => ⟨(range verb).start, (range verb).stop⟩⟩
  · rintro ⟨⟨settings, indent, listing, rising⟩, range⟩
    exact ⟨⟨settings, indent, listing, rising⟩, fun verb => ⟨(range verb).start, (range verb).stop⟩⟩

/-- A name that is no format is no name. -/
theorem stops_unknown_iff {r : Request} {name : String} (unknown : Format.ofText? name = none)
    (q : Settings × Listing) :
    Stops { r with format := some name } q ↔ Stops { r with format := none } q := by
  have heffective : Request.effective { r with format := some name } q.1 =
      Request.effective { r with format := none } q.1 := by
    simp only [Request.effective, Option.bind_some, unknown]
    rfl
  unfold Stops
  rw [heffective]
  rfl

section

variable {r : Request} (steady : files.Steady) (complete : r.Complete)
include steady complete

/-- What `dis` does: with settings that the first stage gives, if all is given. -/
theorem displays_or_refused (verb : r.verb = .disassemble) :
    (∃ q, Admits files r q) ∧
      (∀ q, Admits files r q → Displays r (r.effective q.1) q.2 (r.run files)) ∨
    (r.run files).exitCode = 1 ∧ (r.run files).out = ByteArray.empty ∧ ∀ q, ¬ Admits files r q := by
  have hshowable : ∀ q, Admits files r q → Showable files r
      (fun settings => ∃ file, GivesSettings files r.configName file ∧
        (∀ text ∈ r.indent, (indentOfText? text).isSome) ∧ settings = r.effective file)
      (r.effective q.1, q.2) := by
    rintro ⟨file, l⟩ ⟨ready, range⟩
    exact ⟨⟨file, ready.settings, ready.indent, rfl⟩, ⟨ready.listing, ready.rising⟩, range verb⟩
  rcases (quiet_effectiveSettings steady r).displays (complete verb) verb with
    ⟨⟨⟨settings, l⟩, ⟨file, hfile, hindent, rfl⟩, ⟨hl, rising⟩, range⟩, hall⟩ |
      ⟨hcode, hempty, hnone⟩
  · exact .inl ⟨⟨(file, l), ⟨hfile, hindent, hl, rising⟩, fun _ => range⟩,
      fun q hq => hall _ (hshowable q hq)⟩
  · exact .inr ⟨hcode, hempty, fun q hq => hnone _ (hshowable q hq)⟩

theorem Admits.displays {q : Settings × Listing} (h : Admits files r q)
    (verb : r.verb = .disassemble) : Displays r (r.effective q.1) q.2 (r.run files) := by
  rcases displays_or_refused steady complete verb with ⟨_, hall⟩ | ⟨_, _, hnone⟩
  · exact hall q h
  · exact absurd h (hnone q)

theorem decided_disassemble (verb : r.verb = .disassemble) :
    Decided (Admits files r) (Stops r) (r.run files) := by
  have hstops : Stops r = fun q =>
      Render.Overflows (r.effective q.1) (r.shown (r.effective q.1) q.2) :=
    funext fun q => propext (and_iff_right verb)
  rw [hstops]
  exact decided_of_displays (displays_or_refused steady complete verb)

end

theorem yields_branches (steady : files.Steady) {r : Request} (verb : r.verb = .branches) :
    Yields (session files r) fun _ out => ∃ q : Settings × Listing,
      Ready files r q.1 q.2 ∧ ListsBranches r q.1 q.2 out := by
  rw [session, verb]
  exact yields_listBranches steady r

theorem Ready.lists (steady : files.Steady) {r : Request} (verb : r.verb = .branches)
    {file : Settings} {l : Listing} (h : Ready files r file l) :
    ListsBranches r file l (r.run files).out := by
  have hlists : ∃ out, ListsBranches r file l out :=
    ⟨_, _, (l.store_eq_ok_iff _).mpr ⟨h.rising, rfl⟩, rfl⟩
  obtain ⟨out, hout⟩ := hlists
  rwa [(yields_branches steady verb).out_eq ⟨(file, l), h, hout⟩]

theorem decided_branches (steady : files.Steady) {r : Request} (verb : r.verb = .branches) :
    Decided (Admits files r) (Stops r) (r.run files) := by
  have hgoes : ∀ q, ¬ Stops r q := by
    rintro q ⟨hverb, _⟩
    rw [verb] at hverb
    cases hverb
  have hadmits : ∀ q, Admits files r q ↔ Ready files r q.1 q.2 := fun q =>
    and_iff_left (by simp [verb])
  rcases (yields_branches steady verb).outcome with ⟨hcode, ⟨q, hready, _⟩, _⟩ |
    ⟨hcode, hempty, hnone⟩
  · refine decided_of_exists ⟨q, (hadmits q).mpr hready⟩
      (fun q _ => iff_of_true hcode (hgoes q)) (fun q _ => iff_of_false ?_ (hgoes q)) ?_
    · rw [hcode]
      decide
    · rw [hcode]
      decide
  · refine decided_of_failure hcode hempty fun q hq => ?_
    have hready := (hadmits q).mp hq
    have hlists : ListsBranches r q.1 q.2 (r.run files).out := hready.lists steady verb
    exact hnone _ ⟨q, hready, hlists⟩

theorem decided_run (steady : files.Steady) {r : Request} (complete : r.Complete) :
    Decided (Admits files r) (Stops r) (r.run files) := by
  cases verb : r.verb with
  | disassemble => exact decided_disassemble steady complete verb
  | branches => exact decided_branches steady verb

/-- **All or nothing.** A request that ends with 1 has printed nothing. It ends with 0 exactly if all
is given that has to be and `dis` is not stopped, and has printed the whole of the listing or of its
branches then. What stops `dis`, with 101, is an indentation of more spaces than a text can have, in
assembly text that shows any instruction: the label of the first one is all that has been printed,
if it has one. A name that is no format decides about nothing, no name of a format about a failure,
and neither does a listing without entries.

What `steady` leaves out is a reader that finds a file and then reports it missing while it is read:
a settings file of that kind would be taken for a missing one, and the request would go on with the
defaults. No file of a folder is like that (`Folder.steady_openFile`). -/
theorem run_all_or_nothing (files : Opener) (steady : files.Steady) (args : List String)
    (r : Request) (parsed : Request.ofArguments args = .ok r) :
    let outcome := r.run files
    (outcome.exitCode = 0 ∨ outcome.exitCode = 1 ∨ outcome.exitCode = 101) ∧
    (outcome.exitCode = 1 → outcome.out = ByteArray.empty) ∧
    (r.verb = .disassemble →
      (outcome.exitCode = 0 ↔
        ∃ file l, Ready files r file l ∧ RangeReady r (r.effective file).labelStem l ∧
          ¬ Render.Overflows (r.effective file) (r.shown (r.effective file) l)) ∧
      (outcome.exitCode = 101 ↔
        ∃ file l, Ready files r file l ∧ RangeReady r (r.effective file).labelStem l ∧
          Render.Overflows (r.effective file) (r.shown (r.effective file) l)) ∧
      ∀ file l, Ready files r file l → RangeReady r (r.effective file).labelStem l →
        Displays r (r.effective file) l outcome) ∧
    (r.verb = .branches →
      outcome.exitCode ≠ 101 ∧
      (outcome.exitCode = 0 ↔ ∃ file l, Ready files r file l) ∧
      ∀ file l, Ready files r file l → ∃ store, l.store = .ok store ∧
        outcome.out = (Render.branchesText (r.shared file) store).toUTF8) ∧
    (∀ name, Format.ofText? name = none →
      (Request.run files { r with format := some name }).exitCode =
        (Request.run files { r with format := none }).exitCode) ∧
    (∀ name, (Request.run files { r with format := name }).exitCode = 1 ↔ outcome.exitCode = 1) ∧
    (∀ file, Ready files r file ⟨[]⟩ → r.start = none → outcome.exitCode = 0) := by
  have complete : r.Complete := Request.start_of_stop parsed
  have decided := decided_run steady complete
  have hnamed : ∀ name, Decided (Admits files { r with format := name })
      (Stops { r with format := name }) (Request.run files { r with format := name }) :=
    fun name => decided_run steady (r := { r with format := name }) complete
  intro outcome
  refine ⟨decided.exitCode_cases, decided.silent,
    fun verb => ⟨?_, ?_, fun file l ready range => ?_⟩,
    fun verb => ⟨fun hcode => ?_, ?_, fun file l ready => ready.lists steady verb⟩,
    fun name unknown => ?_, fun name => ?_, fun file ready start => ?_⟩
  · rw [decided.success]
    simp only [Admits, Stops, Prod.exists, verb, true_and, forall_const, and_assoc]
  · rw [decided.stopped]
    simp only [Admits, Stops, Prod.exists, verb, true_and, forall_const, and_assoc]
  · exact Admits.displays steady complete (q := (file, l)) ⟨ready, fun _ => range⟩ verb
  · obtain ⟨q, _, hverb, _⟩ := decided.stopped.mp hcode
    rw [verb] at hverb
    cases hverb
  · rw [decided.success]
    simp [Admits, Stops, Prod.exists, verb]
  · refine (hnamed (some name)).exitCode_eq (hnamed none) (fun q => ?_) (stops_unknown_iff unknown)
    exact (admits_format_iff _ q).trans (admits_format_iff _ q).symm
  · rw [(hnamed name).failure, decided.failure]
    simp only [admits_format_iff]
  · have admits : Admits files r (file, ⟨[]⟩) := by
      refine ⟨ready, fun verb => ⟨by simp [start], fun text htext => ?_⟩⟩
      have hstart := complete verb (Option.isSome_of_mem htext)
      rw [start] at hstart
      cases hstart
    refine decided.success.mpr ⟨_, admits, ?_⟩
    -- Nothing is shown of a listing without entries.
    rintro ⟨_, overflows⟩
    refine overflows.nonempty ?_
    simp [Request.shown, Request.range, start, Render.shownAddresses, Listing.addresses]

/-- A range that begins at a label of the stem of the settings file, and whose end is not stored. -/
theorem run_all_or_nothing_of_range :
    let files : Opener := fun name =>
      if name = "dsodis.json" then .ok ⟨"\x7b\"label_prefix\":\"at\"\x7d".toUTF8.toList, .complete⟩
      else if name = "code.json" then
        .ok ⟨"[[[4,\"push\",[]],[8,\"ret\",[]]]]".toUTF8.toList, .complete⟩
      else .error .noSuchFile
    let args := ["dis", "code.json", "--from", "at_00000004", "--to", "6"]
    let r : Request :=
      { verb := .disassemble, listing := "code.json", start := some "at_00000004",
        stop := some "6" }
    files.Steady ∧ Request.ofArguments args = .ok r ∧ (r.run files).exitCode = 0 := by
  intro files args r
  have steady : files.Steady := by
    intro name source error hopen hending
    dsimp only [files] at hopen
    split at hopen
    · cases hopen
      cases hending
    split at hopen
    · cases hopen
      cases hending
    · cases hopen
  have parsed : Request.ofArguments args = .ok r := by decide
  refine ⟨steady, parsed, ((run_all_or_nothing files steady args r parsed).2.2.1 rfl).1.mpr ?_⟩
  let file : Settings := { labelStem := "at" }
  let l : Listing := ⟨[⟨4, "push", [], none, none⟩, ⟨8, "ret", [], none, none⟩]⟩
  have ready : Ready files r file l :=
    { settings := .held rfl (by decide +kernel)
      indent := by decide
      listing := ⟨_, rfl, by decide +kernel⟩
      rising := by decide }
  have range : RangeReady r (r.effective file).labelStem l :=
    { start := by
        rintro text ⟨⟩
        exact ⟨4, by decide +kernel, by decide⟩
      stop := by
        rintro text ⟨⟩
        decide +kernel }
  exact ⟨file, l, ready, range, fun overflows => absurd overflows.long (by decide +kernel)⟩

/-- All is given, and yet the program is stopped, by one space more than a text can have. -/
theorem not_run_all_or_nothing_of_indent :
    let files : Opener := fun name =>
      if name = "code.json" then .ok ⟨"[[[4,\"jmp\",[],4]]]".toUTF8.toList, .complete⟩
      else .error .noSuchFile
    let args := ["dis", "code.json", "--indent", "9223372036854775808"]
    let r : Request :=
      { verb := .disassemble, listing := "code.json", indent := some "9223372036854775808" }
    files.Steady ∧ Request.ofArguments args = .ok r ∧
      ¬ ((r.run files).exitCode = 0 ↔
        ∃ file l, Ready files r file l ∧ RangeReady r (r.effective file).labelStem l) ∧
      (r.run files).exitCode = 101 ∧ (r.run files).out = "loc_0004:\n".toUTF8 := by
  intro files args r
  have steady : files.Steady := by
    intro name source error hopen hending
    dsimp only [files] at hopen
    split at hopen
    · cases hopen
      cases hending
    · cases hopen
  have parsed : Request.ofArguments args = .ok r := by decide
  let l : Listing := ⟨[⟨4, "jmp", [], some 4, none⟩]⟩
  have ready : Ready files r {} l :=
    { settings := .missing rfl rfl
      indent := by decide
      listing := ⟨_, rfl, by decide +kernel⟩
      rising := by decide }
  have range : RangeReady r (r.effective {}).labelStem l := ⟨nofun, nofun⟩
  have overflows : Render.Overflows (r.effective {}) (r.shown (r.effective {}) l) :=
    ⟨rfl, by decide +kernel, by decide⟩
  have displays : Displays r (r.effective {}) l (r.run files) :=
    Admits.displays steady (Request.start_of_stop parsed) (q := ({}, l)) ⟨ready, fun _ => range⟩ rfl
  cases displays with
  | whole _ fits _ _ _ => exact absurd overflows fits
  | @stopped store a rest loads _ first exitCode out =>
    have hfirst : [4] = a :: rest := first
    obtain ⟨_, rfl⟩ := (l.store_eq_ok_iff store).mp loads
    have hlabel : Render.labelLine (r.effective {})
        (Store.ofList (l.entries.map Entry.instruction)) 4 = "loc_0004:\n" := by decide +kernel
    cases hfirst
    rw [hlabel] at out
    refine ⟨steady, parsed, fun hiff => ?_, exitCode, out⟩
    rw [exitCode] at hiff
    exact absurd (hiff.mpr ⟨{}, l, ready, range⟩) (by decide)

end Bytecode.Command
