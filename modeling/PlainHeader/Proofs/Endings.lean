import PlainHeader.Proofs.HeaderContents
import PlainHeader.Proofs.HeaderFrame
import PlainHeader.Proofs.Speech

/-!
# The ways in which a run ends

A run that nothing refuses to hear ends in exactly one of four ways. It has told what it was
asked, or it has shown how it is used, and then the disk is as it was; or it has complained about
a file; or it has made a header and says nothing. `Ending.Describes` gives for each of them the
result, the exit code, both streams and the disk.
-/

namespace PlainHeader

/-- The ways in which a run ends. -/
inductive Ending
  /-- The help or the version was asked for and printed. -/
  | informed
  /-- The command line names no two files, or the first one is no file. -/
  | misused
  /-- A file could not be opened, read or written. -/
  | failed
  | made
  deriving DecidableEq

def reportedName (argv : List Bytes) : Text := (argv.head?.map Utf8.decodeLossy).getD "c_interface".toList

theorem calledName_eq (argv : List Bytes) : Wording.calledName argv = reportedName argv := by
  cases argv <;> rfl

/-- What a run has left behind when it has ended in one of the ways. -/
def Ending.Describes (argv : List Bytes) (disk : Disk) (outcome : Outcome) : Ending → Prop
  | .informed =>
    outcome.result = .ok () ∧ exitCode outcome.result = 0 ∧
      (Request.ofArguments argv.tail = .help ∧
          outcome.console.stdout.bytes = Utf8.encode (Wording.help (Wording.shownName argv)) ∨
        Request.ofArguments argv.tail = .version ∧
          outcome.console.stdout.bytes = Utf8.encode "c_interface 0.2.2\n".toList) ∧
      outcome.console.stderr.bytes = [] ∧ outcome.disk = disk
  | .misused =>
    ∃ fault,
      (Request.ofArguments argv.tail = .invalid ∧ fault = .usage ∨
        ∃ input output, Request.ofArguments argv.tail = .convert input output ∧ fault = .noSuchInput input) ∧
      outcome.result = .error fault ∧ exitCode outcome.result = 1 ∧
      outcome.console.stdout.bytes =
        Utf8.encode ("usage: ".toList ++ reportedName argv ++
          " <EPAX_C++_interface> <EPAX_C_interface>\nerror: ".toList ++ fault.message ++ "\n".toList) ∧
      outcome.console.stderr.bytes = [] ∧ outcome.disk = disk
  | .failed =>
    ∃ input output activity cause,
      Request.ofArguments argv.tail = .convert input output ∧
      outcome.result = .error (.failed activity cause) ∧ exitCode outcome.result = 1 ∧
      outcome.console.stdout.bytes = [] ∧
      outcome.console.stderr.bytes =
        Utf8.encode (reportedName argv ++ ": ".toList ++ activity ++ ": ".toList ++ cause.message ++ "\n".toList)
  | .made =>
    ∃ input output location data,
      Request.ofArguments argv.tail = .convert input output ∧ disk.file? input = some (location, data) ∧
      outcome.result = .ok () ∧ exitCode outcome.result = 0 ∧
      outcome.console.stdout.bytes = [] ∧ outcome.console.stderr.bytes = [] ∧
      ∀ there, disk.target output = .ok (.file there) → there ≠ location →
        ∃ text, data = Utf8.encode text ∧
          outcome.disk.file? output =
            some (there, Utf8.encode (banner argv) ++ [Source.lineFeed] ++ Rules.epax.rendering (Text.lines text))

/-- The way in which a run ends, by what it was asked and what came of it. -/
def Ending.of : Request → Except Fault Unit → Ending
  | .convert _ _, .ok () => .made
  | _, .ok () => .informed
  | _, .error (.failed _ _) => .failed
  | _, .error _ => .misused

section
variable {argv : List Bytes} {disk : Disk} {outcome : Outcome}

/-- A run is described as ending in no other way than by its request and its result. -/
theorem Ending.eq_of {ending : Ending} (described : ending.Describes argv disk outcome) :
    ending = Ending.of (Request.ofArguments argv.tail) outcome.result := by
  cases ending with
  | informed =>
    obtain ⟨result, -, told, -⟩ := described
    rcases told with ⟨asked, -⟩ | ⟨asked, -⟩ <;> rw [result, asked] <;> rfl
  | misused =>
    obtain ⟨fault, kind, result, -⟩ := described
    rcases kind with ⟨asked, rfl⟩ | ⟨input, output, asked, rfl⟩ <;> rw [result, asked] <;> rfl
  | failed =>
    obtain ⟨input, output, activity, cause, asked, result, -⟩ := described
    rw [result, asked]
    rfl
  | made =>
    obtain ⟨input, output, location, data, asked, -, result, -⟩ := described
    rw [result, asked]
    rfl

/-- A header that was made without a fault is the banner line and what the lines of a text become,
    unless it was made over its input or on a device. -/
theorem Disk.makeHeader_of_ok {rules : Rules} {input output : Bytes} {banner : Text}
    (ended : (disk.makeHeader rules input output banner).2 = .ok ()) :
    ∃ location data, disk.file? input = some (location, data) ∧
      ∀ there, disk.target output = .ok (.file there) → there ≠ location →
        ∃ text, data = Utf8.encode text ∧
          (disk.makeHeader rules input output banner).1.file? output =
            some (there, bannerLine banner ++ rules.rendering (Text.lines text)) := by
  rcases disk.makeHeader_cases rules input output banner with ⟨fault, -, made⟩ | ⟨⟨location, data⟩, target, found, readable, -, -⟩
  · rw [made] at ended
    cases ended
  · refine ⟨location, data, found, fun there opened apart => ?_⟩
    obtain ⟨after, contents, made⟩ := makeHeader_apart found readable opened apart rules banner
    rw [made] at ended ⊢
    cases stopped : Source.obstacle { data } with
    | some cause => simp [stopped] at ended
    | none =>
      obtain ⟨text, rfl⟩ := Source.valid_of_obstacle stopped
      rw [Source.legible_encode] at contents
      exact ⟨text, rfl, contents⟩

theorem Disk.makeHeader_ne_usage (disk : Disk) (rules : Rules) (input output : Bytes) (banner : Text) :
    (disk.makeHeader rules input output banner).2 ≠ .error .usage := by
  intro ended
  rcases disk.makeHeader_cases rules input output banner with ⟨fault, early, made⟩ | ⟨file, target, -, -, -, made⟩
  · rw [made] at ended
    obtain rfl := Except.error.inj ended
    cases early
  · rw [made] at ended
    cases headerAt_blames ended

theorem usageReport_eq (argv : List Bytes) (fault : Fault) :
    Wording.usageReport (Wording.calledName argv) fault =
      "usage: ".toList ++ reportedName argv ++ " <EPAX_C++_interface> <EPAX_C_interface>\nerror: ".toList ++
        fault.message ++ "\n".toList := by
  rw [calledName_eq]
  rfl

theorem failureReport_eq (argv : List Bytes) (activity : Text) (cause : Cause) :
    Wording.failureReport (Wording.calledName argv) (.failed activity cause) =
      reportedName argv ++ ": ".toList ++ activity ++ ": ".toList ++ cause.message ++ "\n".toList := by
  have worded : (Fault.failed activity cause).message = activity ++ ": ".toList ++ cause.message := rfl
  have feed : "\n".toList = ['\n'] := rfl
  rw [calledName_eq, Wording.failureReport, worded, feed]
  simp only [List.append_assoc]

/-- A run whose work is done and whose speech is heard has ended as its request and its result say. -/
theorem Ending.describes_of (worked : outcome.disk = (work argv disk).1) (ended : outcome.result = (work argv disk).2)
    (out : outcome.console.stdout.bytes = (speech argv outcome.result).output)
    (err : outcome.console.stderr.bytes = (speech argv outcome.result).complaint) :
    (Ending.of (Request.ofArguments argv.tail) outcome.result).Describes argv disk outcome := by
  cases asked : Request.ofArguments argv.tail with
  | help =>
    simp only [work, speech, asked] at worked ended out err
    rw [ended]
    exact ⟨ended, by rw [ended]; rfl, .inl ⟨asked, out⟩, err, worked⟩
  | version =>
    simp only [work, speech, asked] at worked ended out err
    rw [ended]
    exact ⟨ended, by rw [ended]; rfl, .inr ⟨asked, out⟩, err, worked⟩
  | invalid =>
    simp only [work, speech, asked] at worked ended out err
    rw [ended] at out err ⊢
    rw [report_of_usage rfl, usageReport_eq] at out
    exact ⟨.usage, .inl ⟨asked, rfl⟩, ended, by rw [ended]; rfl, out, err, worked⟩
  | convert input output =>
    simp only [work, speech, asked] at worked ended out err
    rcases result : outcome.result with fault | done
    · rw [result] at ended out err
      cases fault with
      | usage => exact absurd ended.symm (disk.makeHeader_ne_usage _ _ _ _)
      | noSuchInput path =>
        obtain ⟨rfl, -⟩ := Disk.makeHeader_noSuchInput_iff.1 ended.symm
        rw [Disk.makeHeader_of_early ended.symm (.noSuchInput path)] at worked
        rw [report_of_usage rfl] at out err
        rw [usageReport_eq] at out
        exact ⟨_, .inr ⟨path, output, asked, rfl⟩, result, by rw [result]; rfl, out, err, worked⟩
      | failed activity cause =>
        rw [report_of_failure (by simp [Fault.comesWithUsage])] at out err
        rw [failureReport_eq] at err
        exact ⟨input, output, activity, cause, asked, result, by rw [result]; rfl, out, err⟩
    · rw [result] at ended out err
      obtain ⟨location, data, found, contents⟩ := Disk.makeHeader_of_ok ended.symm
      rw [← worked] at contents
      exact ⟨input, output, location, data, asked, found, result, by rw [result]; rfl, out, err, contents⟩

end

/-- A run on a console that takes everything ends in exactly one of the four ways, for every
    command line and disk. -/
theorem existsUnique_ending (argv : List Bytes) (disk : Disk) {console : Console} (willing : console.Willing)
    (fresh : console.Fresh) : ∃! ending : Ending, ending.Describes argv disk (run argv disk console) := by
  obtain ⟨worked, ended, out, err⟩ := run_of_willing argv disk willing fresh
  rw [← ended] at out err
  exact ⟨_, Ending.describes_of worked ended out err, fun _ => Ending.eq_of⟩

/-- On one disk: the version, an input that is not there, an output that is a directory, and a header. -/
theorem existsUnique_ending_each :
    let path (name : String) : Bytes := Utf8.encode name.toList
    let disk : Disk := { nodes := [([path "in"], .file (path "int a;\n")), ([path "sub"], .directory)] }
    let ends (ending : Ending) (arguments : List String) : Prop :=
      ending.Describes (("x" :: arguments).map path) disk (run (("x" :: arguments).map path) disk {})
    (({} : Console).Willing ∧ ({} : Console).Fresh) ∧
      ends .informed ["-V"] ∧ ends .misused ["gone", "out"] ∧ ends .failed ["in", "sub"] ∧ ends .made ["in", "out"] := by
  intro path disk ends
  have willing : ({} : Console).Willing := ⟨⟨rfl, rfl⟩, ⟨rfl, rfl⟩⟩
  have fresh : ({} : Console).Fresh := ⟨rfl, rfl⟩
  have ended {ending : Ending} {argv : List Bytes}
      (kind : Ending.of (Request.ofArguments argv.tail) (run argv disk {}).result = ending) :
      ending.Describes argv disk (run argv disk {}) := by
    obtain ⟨other, described, -⟩ := existsUnique_ending argv disk willing fresh
    rwa [← kind, ← Ending.eq_of described]
  exact ⟨⟨willing, fresh⟩, ended (by decide +kernel), ended (by decide +kernel), ended (by decide +kernel),
    ended (by decide +kernel)⟩

end PlainHeader
