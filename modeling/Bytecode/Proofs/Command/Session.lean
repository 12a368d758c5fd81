import Bytecode.Command.Run
import Bytecode.Proofs.Render.Output
import Bytecode.Proofs.Sequencing

/-!
# What a session prints and gives

A session adds to what is on the console and never looks at it, so one result, some warnings and
some bytes say all about it (`Runs`). Failures print nothing here: `Yields x yields` says so, and
that the values of `x` and the bytes that come with them are those that `yields` tells. A session is
`Quiet` if these bytes are none. What follows a quiet session prints all that is printed
(`Quiet.yields_bind`), so nothing is on the console when either of them fails.

Only a program that is stopped because a text gets too long may have printed something by then. That
happens where lines are made while they are printed, which is the last thing that `dis` does: it is
a quiet session, and then the printing (`Quiet.printed_or_refused`).
-/

namespace Bytecode.Command

variable {α β : Type}

/-- Whatever is on the console: the result, the warnings and the bytes that the session adds. -/
def Runs (x : Session α) (result : Except Failure α) (warnings : List String)
    (bytes : ByteArray) : Prop :=
  ∀ console : Console, (ExceptT.run x).run console =
    (result, ⟨console.out ++ bytes, console.warnings ++ warnings⟩)

theorem runs_pure (a : α) : Runs (pure a) (.ok a) [] ByteArray.empty := by
  intro console
  rw [ByteArray.append_empty, List.append_nil]
  rfl

theorem runs_throw (e : Failure) : Runs (throw e : Session α) (.error e) [] ByteArray.empty := by
  intro console
  rw [ByteArray.append_empty, List.append_nil]
  rfl

theorem runs_warn (message : String) : Runs (warn message) (.ok ()) [message] ByteArray.empty := by
  intro console
  rw [ByteArray.append_empty]
  rfl

/-- How the session goes on that has printed as far as that goes. -/
def printResult : Except Interruption Unit → Except Failure Unit
  | .error .overflow => .error .overflow
  | _ => .ok ()

theorem runs_print (printing : Printing Unit) :
    Runs (print printing) (printResult (printing.run none).2) [] (printing.run none).1 := by
  intro console
  rw [List.append_nil]
  unfold print
  rcases printing.run none with ⟨bytes, ⟨_ | _⟩ | ⟨⟩⟩ <;> rfl

theorem runs_print_output (output : Output Unit) :
    Runs (print output.printing) (.ok ()) [] (output.run none).1 := by
  have hprint := runs_print output.printing
  have hdone : printResult (output.printing.run none).2 = .ok () := by
    rw [Output.run_printing]
    rcases (output.run none).2 with ⟨⟨⟩⟩ | ⟨⟩ <;> rfl
  rwa [hdone] at hprint

theorem runs_orFail {ε : Type} {failure : ε → Failure} {result : Except ε α} {a : α}
    (h : result = .ok a) : Runs (orFail failure result) (.ok a) [] ByteArray.empty := by
  rw [h]
  exact runs_pure a

theorem Runs.bind {x : Session α} {f : α → Session β} {a : α} {result : Except Failure β}
    {ws vs : List String} {first second : ByteArray} (hx : Runs x (.ok a) ws first)
    (hf : Runs (f a) result vs second) : Runs (x >>= f) result (ws ++ vs) (first ++ second) := by
  intro console
  rw [run_bind, hx console]
  simp only [hf _, ByteArray.append_assoc, List.append_assoc]

/-- After a session that prints nothing. -/
theorem Runs.bind_quiet {x : Session α} {f : α → Session β} {a : α} {result : Except Failure β}
    {ws vs : List String} {bytes : ByteArray} (hx : Runs x (.ok a) ws .empty)
    (hf : Runs (f a) result vs bytes) : Runs (x >>= f) result (ws ++ vs) bytes := by
  have hboth := hx.bind hf
  rwa [ByteArray.empty_append] at hboth

theorem Runs.bind_error {x : Session α} {f : α → Session β} {e : Failure} {ws : List String}
    {bytes : ByteArray} (hx : Runs x (.error e) ws bytes) : Runs (x >>= f) (.error e) ws bytes := by
  intro console
  rw [run_bind, hx console]

theorem runs_forM_warn (message : Address → String) (as : List Address) :
    Runs (as.forM fun a => warn (message a)) (.ok ()) (as.map message) ByteArray.empty := by
  induction as with
  | nil => exact runs_pure ()
  | cons a as ih =>
    have hboth := (runs_warn (message a)).bind (f := fun _ => as.forM fun a => warn (message a)) ih
    rwa [ByteArray.append_empty] at hboth

/-! ## Failures that are reported -/

theorem Failure.ofDocument_ne_overflow (e : Json.Error) : Failure.ofDocument e ≠ .overflow := by
  unfold Failure.ofDocument
  split <;> simp

theorem Failure.ofLoad_ne_overflow (e : LoadError) : Failure.ofLoad e ≠ .overflow := by
  cases e with
  | document e => exact ofDocument_ne_overflow e
  | _ => simp [Failure.ofLoad]

theorem Failure.ofSettings_ne_overflow (e : Settings.ReadError) :
    Failure.ofSettings e ≠ .overflow := by
  cases e with
  | document e => exact ofDocument_ne_overflow e
  | system e => simp [Failure.ofSettings]

theorem Failure.store_ne_overflow (e : StoreError) : Failure.store e ≠ .overflow := nofun

/-! ## Printing all or nothing -/

/-- The session is not stopped, and prints nothing when it fails. It gives the values, and prints
the bytes with them, that `yields` tells, so it fails if nothing is told. -/
def Yields (x : Session α) (yields : α → ByteArray → Prop) : Prop :=
  ∃ result warnings bytes, Runs x result warnings bytes ∧
    (∀ e, result = .error e → e ≠ .overflow ∧ bytes = ByteArray.empty) ∧
    ∀ a out, (result = .ok a ∧ bytes = out) ↔ yields a out

/-- The session prints nothing, and `gives` tells its values. -/
def Quiet (x : Session α) (gives : α → Prop) : Prop :=
  Yields x fun a out => gives a ∧ out = ByteArray.empty

theorem Yields.congr {x : Session α} {p q : α → ByteArray → Prop} (h : Yields x p)
    (hpq : ∀ a out, p a out ↔ q a out) : Yields x q := by
  obtain ⟨result, warnings, bytes, hrun, hfail, hyields⟩ := h
  exact ⟨result, warnings, bytes, hrun, hfail, fun a out => (hyields a out).trans (hpq a out)⟩

theorem Quiet.congr {x : Session α} {p q : α → Prop} (h : Quiet x p) (hpq : ∀ a, p a ↔ q a) :
    Quiet x q :=
  Yields.congr h fun a _ => and_congr_left' (hpq a)

theorem Runs.yields {x : Session α} {a : α} {ws : List String} {bytes : ByteArray}
    (h : Runs x (.ok a) ws bytes) : Yields x fun b out => b = a ∧ out = bytes := by
  refine ⟨.ok a, ws, bytes, h, ?_, fun b out => by simp [eq_comm]⟩
  rintro e ⟨⟩

theorem quiet_pure (a : α) : Quiet (pure a) fun b => b = a := (runs_pure a).yields

theorem quiet_throw {e : Failure} (h : e ≠ .overflow) :
    Quiet (throw e : Session α) fun _ => False := by
  refine ⟨.error e, [], _, runs_throw e, ?_, fun _ _ => by simp⟩
  rintro e ⟨⟩
  exact ⟨h, rfl⟩

theorem quiet_invalidInput (message : String) :
    Quiet (throw (.invalidInput message) : Session α) fun _ => False :=
  quiet_throw nofun

theorem quiet_warn (message : String) : Quiet (warn message) fun _ => True :=
  (runs_warn message).yields.congr fun _ _ => by simp

theorem quiet_orFail {ε : Type} {failure : ε → Failure} (h : ∀ e, failure e ≠ .overflow)
    (result : Except ε α) : Quiet (orFail failure result) fun a => result = .ok a := by
  cases result with
  | ok a => exact (quiet_pure a).congr fun b => by simp [eq_comm]
  | error e => exact (quiet_throw (h e)).congr fun b => by simp

theorem yields_print_output (output : Output Unit) :
    Yields (print output.printing) fun _ out => out = (output.run none).1 :=
  (runs_print_output output).yields.congr fun _ _ => by simp

/-! ## One after the other -/

/-- After a quiet session: what comes next depends on its value, and prints all there is. -/
theorem Quiet.yields_bind {x : Session α} {f : α → Session β} {p : α → Prop}
    {q : α → β → ByteArray → Prop} (hx : Quiet x p) (hf : ∀ a, p a → Yields (f a) (q a)) :
    Yields (x >>= f) fun b out => ∃ a, p a ∧ q a b out := by
  obtain ⟨result, ws, bytes, hrun, hfail, hgives⟩ := hx
  cases result with
  | error e =>
    -- No value of `x` is told, so nothing is told of what comes next either.
    refine ⟨.error e, ws, bytes, hrun.bind_error, ?_, fun b out => ?_⟩
    · rintro e ⟨⟩
      exact hfail e rfl
    constructor
    · rintro ⟨⟨⟩, _⟩
    · rintro ⟨a, ha, _⟩
      cases ((hgives a _).mpr ⟨ha, rfl⟩).1
  | ok a =>
    -- `x` has printed nothing: all bytes are those of what comes next.
    obtain ⟨ha, rfl⟩ := (hgives a bytes).mp ⟨rfl, rfl⟩
    obtain ⟨second, vs, bytes, hnext, hlater, hyields⟩ := hf a ha
    refine ⟨second, ws ++ vs, bytes, ?_, hlater, fun b out => ?_⟩
    · have hboth := hrun.bind hnext
      rwa [ByteArray.empty_append] at hboth
    · rw [hyields b out]
      constructor
      · intro hout
        exact ⟨a, ha, hout⟩
      · rintro ⟨c, hc, hout⟩
        obtain rfl : a = c := Except.ok.inj ((hgives c _).mpr ⟨hc, rfl⟩).1
        exact hout

theorem Quiet.bind {x : Session α} {f : α → Session β} {p : α → Prop} {q : α → β → Prop}
    (hx : Quiet x p) (hf : ∀ a, p a → Quiet (f a) (q a)) :
    Quiet (x >>= f) fun b => ∃ a, p a ∧ q a b :=
  (hx.yields_bind hf).congr fun b out => by simp only [← and_assoc, exists_and_right]

/-- A session that is run for its warnings only. -/
theorem Quiet.seq {x : Session Unit} {f : Session β} {q : β → Prop} (hx : Quiet x fun _ => True)
    (hf : Quiet f q) : Quiet (do x; f) q :=
  (hx.bind fun _ _ => hf).congr fun _ => by simp

/-- A warning or none, before the rest. -/
theorem Quiet.after_warning {c : Prop} [Decidable c] (message : String) {f : Unit → Session β}
    {q : β → Prop} (hf : Quiet (f ()) q) :
    Quiet (if c then do let u ← warn message; f u else f ()) q := by
  split
  · exact ((quiet_warn message).bind fun _ _ => hf).congr fun _ => by simp
  · exact hf

theorem quiet_forM_warn (message : Address → String) (as : List Address) :
    Quiet (as.forM fun a => warn (message a)) fun _ => True := by
  induction as with
  | nil => exact (quiet_pure ()).congr fun _ => by simp
  | cons a as ih => exact (quiet_warn (message a)).seq ih

/-- Warnings after what is printed. -/
theorem Yields.warned {x y : Session Unit} {p : ByteArray → Prop} (hx : Yields x fun _ => p)
    (hy : Quiet y fun _ => True) : Yields (do x; y) fun _ => p := by
  obtain ⟨result, ws, bytes, hrun, hfail, hyields⟩ := hx
  obtain ⟨last, vs, none, hnext, _, hlast⟩ := hy
  obtain ⟨rfl, rfl⟩ := (hlast () ByteArray.empty).mpr ⟨trivial, rfl⟩
  cases result with
  | error e => exact ⟨.error e, ws, bytes, hrun.bind_error, hfail, hyields⟩
  | ok u =>
    have hboth := hrun.bind (f := fun _ => y) hnext
    rw [ByteArray.append_empty] at hboth
    refine ⟨.ok (), ws ++ vs, bytes, hboth, ?_, hyields⟩
    rintro e ⟨⟩

/-! ## Outcomes -/

section

variable {files : Opener} {r : Request} {warnings : List String} {bytes : ByteArray}

theorem Runs.run_eq {result : Except Failure Unit}
    (h : Runs (session files r) result warnings bytes) :
    (ExceptT.run (session files r)).run {} = (result, ⟨bytes, warnings⟩) := by
  rw [h {}]
  exact congrArg (fun out => (result, Console.mk out warnings)) ByteArray.empty_append

theorem Runs.outcome_ok (h : Runs (session files r) (.ok ()) warnings bytes) :
    r.run files = ⟨0, bytes, String.join (warnings.map warningText)⟩ := by
  unfold Request.run
  rw [h.run_eq]

theorem Runs.outcome_failed {e : Failure} (h : Runs (session files r) (.error e) warnings bytes) :
    r.run files = ⟨e.exitCode, bytes, String.join (warnings.map warningText) ++ e.report⟩ := by
  unfold Request.run
  rw [h.run_eq]

/-- A failure that the program reports. -/
theorem Runs.outcome_error {e : Failure} (h : Runs (session files r) (.error e) warnings bytes)
    (reported : e ≠ .overflow) :
    r.run files = ⟨1, bytes,
      String.join (warnings.map warningText) ++ "Error: " ++ e.debugText ++ "\n"⟩ := by
  rw [h.outcome_failed]
  cases e with
  | overflow => exact absurd rfl reported
  | _ => simp only [Failure.exitCode, Failure.report, String.append_assoc]

end

/-- The outcome of a request: it is a success, with the bytes that are told, or a failure that
leaves standard output empty. -/
theorem Yields.outcome {files : Opener} {r : Request} {prints : ByteArray → Prop}
    (h : Yields (session files r) fun _ => prints) :
    ((r.run files).exitCode = 0 ∧ prints (r.run files).out ∧
      ∀ out, prints out → out = (r.run files).out) ∨
    ((r.run files).exitCode = 1 ∧ (r.run files).out = ByteArray.empty ∧ ∀ out, ¬ prints out) := by
  obtain ⟨result, warnings, bytes, hrun, hfail, hyields⟩ := h
  cases result with
  | ok u =>
    rw [hrun.outcome_ok]
    refine Or.inl ⟨rfl, (hyields () bytes).mp ⟨rfl, rfl⟩, fun out hout => ?_⟩
    exact ((hyields () out).mpr hout).2.symm
  | error e =>
    obtain ⟨reported, hempty⟩ := hfail e rfl
    rw [hrun.outcome_error reported]
    refine Or.inr ⟨rfl, hempty, fun out hout => ?_⟩
    cases ((hyields () out).mpr hout).1

section

variable {files : Opener} {r : Request} {prints : ByteArray → Prop}

theorem Yields.exitCode_eq_zero_iff (h : Yields (session files r) fun _ => prints) :
    (r.run files).exitCode = 0 ↔ ∃ out, prints out := by
  rcases h.outcome with ⟨hcode, hout, _⟩ | ⟨hcode, _, hnone⟩
  · exact ⟨fun _ => ⟨_, hout⟩, fun _ => hcode⟩
  · rw [hcode]
    constructor
    · intro h
      cases h
    · rintro ⟨out, hout⟩
      exact absurd hout (hnone out)

theorem Yields.out_eq (h : Yields (session files r) fun _ => prints) {out : ByteArray}
    (hout : prints out) : (r.run files).out = out := by
  rcases h.outcome with ⟨_, _, honly⟩ | ⟨_, _, hnone⟩
  · exact (honly out hout).symm
  · exact absurd hout (hnone out)

/-- Where a condition decides whether anything is told, it decides about success. -/
theorem Yields.decided {ι : Type} {holds : ι → Prop} {told : ι → ByteArray → Prop}
    (h : Yields (session files r) fun _ out => ∃ i, holds i ∧ told i out)
    (hout : ∀ i, holds i → ∃ out, told i out) :
    ((r.run files).exitCode = 0 ↔ ∃ i, holds i) ∧ ∀ i, holds i → told i (r.run files).out := by
  constructor
  · rw [h.exitCode_eq_zero_iff]
    constructor
    · rintro ⟨_, i, hi, _⟩
      exact ⟨i, hi⟩
    · rintro ⟨i, hi⟩
      obtain ⟨out, htold⟩ := hout i hi
      exact ⟨out, i, hi, htold⟩
  · intro i hi
    obtain ⟨out, htold⟩ := hout i hi
    rwa [h.out_eq ⟨i, hi, htold⟩]

end

/-! ## Printing at the end -/

/-- The exit code of a program that does nothing after it has printed as far as that goes. -/
def printExitCode : Except Interruption Unit → UInt8
  | .error .overflow => 101
  | _ => 0

/-- The outcome of a request that ends with this printing. -/
structure Printed (printing : Printing Unit) (outcome : Outcome) : Prop where
  out : outcome.out = (printing.run none).1
  exitCode : outcome.exitCode = printExitCode (printing.run none).2

theorem Runs.printed {files : Opener} {r : Request} {printing : Printing Unit}
    {warnings : List String}
    (h : Runs (session files r) (printResult (printing.run none).2) warnings
      (printing.run none).1) : Printed printing (r.run files) := by
  rcases hrun : printing.run none with ⟨bytes, ⟨_ | _⟩ | ⟨⟩⟩
  · rw [hrun] at h
    exact ⟨by rw [h.outcome_ok, hrun], by rw [h.outcome_ok, hrun]; rfl⟩
  · rw [hrun] at h
    exact ⟨by rw [h.outcome_failed, hrun], by rw [h.outcome_failed, hrun]; rfl⟩
  · rw [hrun] at h
    exact ⟨by rw [h.outcome_ok, hrun], by rw [h.outcome_ok, hrun]; rfl⟩

theorem Printed.of_output {output : Output Unit} {outcome : Outcome}
    (h : Printed output.printing outcome) :
    outcome.exitCode = 0 ∧ outcome.out = (output.run none).1 := by
  obtain ⟨out, exitCode⟩ := h
  rw [Output.run_printing] at out exitCode
  refine ⟨?_, out⟩
  rw [exitCode]
  rcases (output.run none).2 with ⟨⟨⟩⟩ | ⟨⟩ <;> rfl

theorem Printed.of_overflow {printing : Printing Unit} {outcome : Outcome} {bytes : ByteArray}
    (h : Printed printing outcome) (stops : printing.run none = (bytes, .error .overflow)) :
    outcome.exitCode = 101 ∧ outcome.out = bytes := by
  obtain ⟨out, exitCode⟩ := h
  rw [stops] at out exitCode
  exact ⟨exitCode, out⟩

/-- A request that is quiet until it prints: it fails and leaves standard output empty, or its
outcome is that of the printing. -/
theorem Quiet.printed_or_refused {files : Opener} {r : Request} {x : Session (Printing Unit)}
    {ι : Type} {holds : ι → Prop} {told : ι → Printing Unit → Prop}
    (h : Quiet x fun printing => ∃ i, holds i ∧ told i printing)
    (ends : session files r = x >>= print) (hout : ∀ i, holds i → ∃ printing, told i printing) :
    ((∃ i, holds i) ∧ ∀ i, holds i → ∃ printing, told i printing ∧ Printed printing (r.run files)) ∨
    ((r.run files).exitCode = 1 ∧ (r.run files).out = ByteArray.empty ∧ ∀ i, ¬ holds i) := by
  obtain ⟨result, warnings, bytes, hrun, hfail, hgives⟩ := h
  cases result with
  | error e =>
    obtain ⟨reported, rfl⟩ := hfail e rfl
    have hsession : Runs (session files r) (.error e) warnings .empty := by
      rw [ends]
      exact hrun.bind_error
    rw [hsession.outcome_error reported]
    refine Or.inr ⟨rfl, rfl, fun i hi => ?_⟩
    obtain ⟨printing, htold⟩ := hout i hi
    cases ((hgives printing _).mpr ⟨⟨i, hi, htold⟩, rfl⟩).1
  | ok printing =>
    obtain ⟨⟨i, hi, htold⟩, rfl⟩ := (hgives printing bytes).mp ⟨rfl, rfl⟩
    have hsession := hrun.bind_quiet (runs_print printing)
    rw [← ends] at hsession
    refine Or.inl ⟨⟨i, hi⟩, fun j hj => ?_⟩
    obtain ⟨other, hother⟩ := hout j hj
    obtain rfl : printing = other :=
      Except.ok.inj ((hgives other ByteArray.empty).mpr ⟨⟨j, hj, hother⟩, rfl⟩).1
    exact ⟨printing, hother, hsession.printed⟩

/-! ## Warnings alone -/

/-- Two sessions that differ in nothing but their warnings. -/
def Alike (x y : Session α) : Prop :=
  ∃ result ws vs bytes, Runs x result ws bytes ∧ Runs y result vs bytes

theorem Runs.alike {x : Session α} {result : Except Failure α} {ws : List String}
    {bytes : ByteArray} (h : Runs x result ws bytes) : Alike x x :=
  ⟨result, ws, ws, bytes, h, h⟩

theorem Yields.alike {x : Session α} {p : α → ByteArray → Prop} (h : Yields x p) : Alike x x := by
  obtain ⟨_, _, _, hrun, _⟩ := h
  exact hrun.alike

theorem Alike.bind {x y : Session α} {f g : α → Session β} (h : Alike x y)
    (hfg : ∀ a, Alike (f a) (g a)) : Alike (x >>= f) (y >>= g) := by
  obtain ⟨result, ws, vs, bytes, hx, hy⟩ := h
  cases result with
  | error e => exact ⟨.error e, ws, vs, bytes, hx.bind_error, hy.bind_error⟩
  | ok a =>
    obtain ⟨next, ws', vs', bytes', hf, hg⟩ := hfg a
    exact ⟨next, ws ++ ws', vs ++ vs', bytes ++ bytes', hx.bind hf, hy.bind hg⟩

theorem Alike.outcome {files : Opener} {r r' : Request}
    (h : Alike (session files r) (session files r')) :
    (r.run files).exitCode = (r'.run files).exitCode ∧ (r.run files).out = (r'.run files).out := by
  obtain ⟨result, ws, vs, bytes, hr, hr'⟩ := h
  cases result with
  | ok u =>
    rw [hr.outcome_ok, hr'.outcome_ok]
    exact ⟨rfl, rfl⟩
  | error e =>
    rw [hr.outcome_failed, hr'.outcome_failed]
    exact ⟨rfl, rfl⟩

end Bytecode.Command
