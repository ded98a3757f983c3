import PlainHeader.CommandLine.Run
import PlainHeader.Proofs.TextLines
import PlainHeader.Proofs.Transcript

/-!
# What a run says, and to whom

A run does its work and speaks at most once, on one of two streams, and what it does and says
depends on the command line and the disk alone (`run_eq`). So a stream that refuses a part of the
speech changes neither the work nor the other stream: the refusal takes the place of the result,
and no fault becomes a success.
-/

namespace PlainHeader

/-! ## Sinks that have taken nothing -/

namespace Sink

/-- Takes everything and can be flushed. -/
structure Willing (sink : Sink) : Prop where
  unlimited : sink.limit = none
  flushed : sink.flushFailure = none

/-- Why a sink that has taken nothing fails to take some bytes or to be flushed behind them, if
    it does. -/
def refusal (sink : Sink) (piece : Bytes) : Option Cause :=
  if sink.limit.any (· < piece.length) then some sink.full else sink.flushFailure

theorem Willing.refusal_eq {sink : Sink} (willing : sink.Willing) (piece : Bytes) : sink.refusal piece = none := by
  simp [refusal, willing.unlimited, willing.flushed]

theorem Willing.fitting_eq {sink : Sink} (willing : sink.Willing) (piece : Bytes) : sink.fitting piece = piece := by
  simp [fitting, willing.unlimited]

theorem fitting_nil (sink : Sink) : sink.fitting [] = [] := List.prefix_nil.1 (sink.fitting_starts [])

theorem writeFlushed_eq {sink : Sink} (fresh : sink.taken = #[]) (piece : Bytes) :
    sink.writeFlushed piece = (sink.append (sink.fitting piece), sink.refusal piece) := by
  have refused : (sink.fitting piece).length < piece.length ↔ sink.limit.any (· < piece.length) = true := by
    cases bound : sink.limit with
    | none => simp [fitting, bound]
    | some limit =>
      simp only [fitting, bound, fresh, List.size_toArray, List.length_nil, Nat.sub_zero, List.length_take,
        Option.any_some, decide_eq_true_eq]
      omega
  unfold writeFlushed write refusal
  by_cases short : (sink.fitting piece).length < piece.length
  · simp only [if_pos short, if_pos (refused.1 short)]
  · simp only [if_neg short, if_neg (mt refused.2 short)]
    rfl

end Sink

namespace Console

structure Willing (console : Console) : Prop where
  stdout : console.stdout.Willing
  stderr : console.stderr.Willing

/-- Neither stream has taken anything. -/
structure Fresh (console : Console) : Prop where
  stdout : console.stdout.taken = #[]
  stderr : console.stderr.taken = #[]

end Console

/-! ## The speech of a run -/

/-- What a run says, and on which stream. -/
inductive Speech
  | silent
  | stdout (text : Text)
  | stderr (text : Text)

namespace Speech

def output : Speech → Bytes
  | .stdout text => Utf8.encode text
  | _ => []

def complaint : Speech → Bytes
  | .stderr text => Utf8.encode text
  | _ => []

def deliver (console : Console) : Speech → Console × Option Cause
  | .silent => (console, none)
  | .stdout text => console.print text
  | .stderr text => console.complain text

/-- One of the two streams is never spoken to. -/
theorem deliver_spares (speech : Speech) :
    (∀ console, (speech.deliver console).1.stdout = console.stdout) ∨
      (∀ console, (speech.deliver console).1.stderr = console.stderr) := by
  cases speech with
  | silent => exact .inl fun _ => rfl
  | stdout text => exact .inr fun _ => rfl
  | stderr text => exact .inl fun _ => rfl

end Speech

/-- What a run does to the disk, and how it ends when everything can be said. -/
def work (argv : List Bytes) (disk : Disk) : Disk × Except Fault Unit :=
  match Request.ofArguments argv.tail with
  | .help | .version => (disk, .ok ())
  | .invalid => (disk, .error .usage)
  | .convert input output => disk.makeHeader Rules.epax input output (banner argv)

/-- What is said about a result, under the name of the program. -/
def report (name : Text) : Except Fault Unit → Speech
  | .ok () => .silent
  | .error fault =>
    if fault.comesWithUsage then .stdout (Wording.usageReport name fault)
    else .stderr (Wording.failureReport name fault)

theorem report_of_usage {fault : Fault} (routed : fault.comesWithUsage = true) (name : Text) :
    report name (.error fault) = .stdout (Wording.usageReport name fault) := if_pos routed

theorem report_of_failure {fault : Fault} (routed : ¬ fault.comesWithUsage = true) (name : Text) :
    report name (.error fault) = .stderr (Wording.failureReport name fault) := if_neg routed

def speech (argv : List Bytes) (result : Except Fault Unit) : Speech :=
  match Request.ofArguments argv.tail with
  | .help => .stdout (Wording.help (Wording.shownName argv))
  | .version => .stdout Wording.version
  | _ => report (Wording.calledName argv) result

/-- What a run was doing when its speech was refused. -/
def speaking : Except Fault Unit → Text
  | .ok () => "cannot write to stdout".toList
  | .error _ => "cannot report error".toList

/-- The result of work when its speech is answered by a refusal, if it is. -/
def answered (result : Except Fault Unit) : Option Cause → Except Fault Unit
  | none => result
  | some cause => .error (.failed (speaking result) cause)

theorem Console.inform_eq (console : Console) (text : Text) :
    console.inform text =
      let said := (Speech.stdout text).deliver console
      (said.1, answered (.ok ()) said.2) := by
  simp only [Console.inform, Speech.deliver]
  rcases console.print text with ⟨after, _ | cause⟩ <;> rfl

theorem Console.conclude_eq (console : Console) (name : Text) (result : Except Fault Unit) :
    console.conclude name result =
      let said := (report name result).deliver console
      (said.1, answered result said.2) := by
  cases result with
  | ok => rfl
  | error fault =>
    have announced : console.announce name fault = (report name (.error fault)).deliver console := by
      by_cases routed : fault.comesWithUsage = true
      · rw [announce, if_pos routed, report_of_usage routed, Speech.deliver]
      · rw [announce, if_neg routed, report_of_failure routed, Speech.deliver]
    simp only [conclude, announced]
    rcases (report name (.error fault)).deliver console with ⟨after, _ | cause⟩ <;> rfl

/-- A run works on the disk, and then speaks. -/
theorem run_eq (argv : List Bytes) (disk : Disk) (console : Console) :
    run argv disk console =
      let made := work argv disk
      let said := (speech argv made.2).deliver console
      { disk := made.1, console := said.1, result := answered made.2 said.2 } := by
  unfold run work speech
  cases Request.ofArguments argv.tail <;> simp only [Console.inform_eq, Console.conclude_eq]

/-! ## How a console answers -/

namespace Speech

/-- Why a fresh console refuses a speech, if it does. -/
def refusal (console : Console) : Speech → Option Cause
  | .silent => none
  | .stdout text => console.stdout.refusal (Utf8.encode text)
  | .stderr text => console.stderr.refusal (Utf8.encode text)

theorem deliver_eq {console : Console} (fresh : console.Fresh) (speech : Speech) :
    (speech.deliver console).1.stdout.bytes = console.stdout.fitting speech.output ∧
      (speech.deliver console).1.stderr.bytes = console.stderr.fitting speech.complaint ∧
      (speech.deliver console).2 = speech.refusal console := by
  have silent (sink : Sink) (taken : sink.taken = #[]) : sink.bytes = sink.fitting [] := by
    simp [Sink.bytes, taken, Sink.fitting_nil]
  have spoken (sink : Sink) (taken : sink.taken = #[]) (piece : Bytes) :
      (sink.append (sink.fitting piece)).bytes = sink.fitting piece := by
    simp [Sink.bytes, Sink.append, taken]
  cases speech with
  | silent => exact ⟨silent _ fresh.stdout, silent _ fresh.stderr, rfl⟩
  | stdout text =>
    simp only [deliver, Console.print, Sink.writeFlushed_eq fresh.stdout]
    exact ⟨spoken _ fresh.stdout _, silent _ fresh.stderr, rfl⟩
  | stderr text =>
    simp only [deliver, Console.complain, Sink.writeFlushed_eq fresh.stderr]
    exact ⟨silent _ fresh.stdout, spoken _ fresh.stderr _, rfl⟩

theorem deliver_of_willing {console : Console} (willing : console.Willing) (fresh : console.Fresh) (speech : Speech) :
    (speech.deliver console).1.stdout.bytes = speech.output ∧
      (speech.deliver console).1.stderr.bytes = speech.complaint ∧ (speech.deliver console).2 = none := by
  obtain ⟨out, err, answer⟩ := speech.deliver_eq fresh
  rw [willing.stdout.fitting_eq] at out
  rw [willing.stderr.fitting_eq] at err
  refine ⟨out, err, answer.trans ?_⟩
  cases speech with
  | silent => rfl
  | stdout text => exact willing.stdout.refusal_eq _
  | stderr text => exact willing.stderr.refusal_eq _

/-- A speech that is not empty is refused by the stream that it has bytes for. -/
theorem refusal_eq (speech : Speech) (told : speech ≠ .stdout [] ∧ speech ≠ .stderr []) (console : Console) :
    speech.refusal console =
      if speech.output ≠ [] then console.stdout.refusal speech.output
      else if speech.complaint ≠ [] then console.stderr.refusal speech.complaint
      else none := by
  cases speech with
  | silent => rfl
  | stdout text =>
    have said : (Speech.stdout text).output ≠ [] := fun empty => told.1 (Utf8.encode_eq_nil_iff.1 empty ▸ rfl)
    rw [if_pos said]
    rfl
  | stderr text =>
    have said : (Speech.stderr text).complaint ≠ [] := fun empty => told.2 (Utf8.encode_eq_nil_iff.1 empty ▸ rfl)
    have quiet : ¬ (Speech.stderr text).output ≠ [] := fun spoken => spoken rfl
    rw [if_neg quiet, if_pos said]
    rfl

end Speech

theorem report_told (name : Text) (result : Except Fault Unit) :
    report name result ≠ .stdout [] ∧ report name result ≠ .stderr [] := by
  have ended (text : Text) : text ++ ['\n'] ≠ [] := List.append_ne_nil_of_right_ne_nil _ (List.cons_ne_nil _ _)
  cases result with
  | ok => exact ⟨nofun, nofun⟩
  | error fault =>
    by_cases routed : fault.comesWithUsage = true
    · rw [report_of_usage routed]
      exact ⟨fun empty => ended _ (Speech.stdout.inj empty), nofun⟩
    · rw [report_of_failure routed]
      exact ⟨nofun, fun empty => ended _ (Speech.stderr.inj empty)⟩

theorem speech_told (argv : List Bytes) (result : Except Fault Unit) :
    speech argv result ≠ .stdout [] ∧ speech argv result ≠ .stderr [] := by
  unfold speech
  cases Request.ofArguments argv.tail with
  | help =>
    have begun : "c_interface - translate the EPAX C++ interface header into a C header\n\nUsage: ".toList ≠ [] := by
      decide
    refine ⟨fun empty => ?_, nofun⟩
    exact List.append_ne_nil_of_left_ne_nil (List.append_ne_nil_of_left_ne_nil begun _) _ (Speech.stdout.inj empty)
  | version =>
    have begun : Wording.version ≠ [] := by decide
    exact ⟨fun empty => begun (Speech.stdout.inj empty), nofun⟩
  | invalid => exact report_told _ _
  | convert => exact report_told _ _

/-! ## Two runs on different consoles -/

/-- Why a fresh console refuses what another one has taken, if it does. A stream that nothing was
    said on is not asked. -/
def Console.refusal (console told : Console) : Option Cause :=
  if told.stdout.bytes ≠ [] then console.stdout.refusal told.stdout.bytes
  else if told.stderr.bytes ≠ [] then console.stderr.refusal told.stderr.bytes
  else none

variable {argv : List Bytes} {disk : Disk} {calm console : Console}

/-- On a console that takes everything a run ends as its work does, and all of its speech is heard. -/
theorem run_of_willing (argv : List Bytes) (disk : Disk) (willing : calm.Willing) (fresh : calm.Fresh) :
    let outcome := run argv disk calm
    let said := speech argv (work argv disk).2
    outcome.disk = (work argv disk).1 ∧ outcome.result = (work argv disk).2 ∧
      outcome.console.stdout.bytes = said.output ∧ outcome.console.stderr.bytes = said.complaint := by
  intro outcome said
  obtain ⟨out, err, answer⟩ := said.deliver_of_willing willing fresh
  have spoken : outcome = { disk := _, console := _, result := _ } := run_eq argv disk calm
  rw [spoken]
  exact ⟨rfl, congrArg (answered _) answer, out, err⟩

theorem run_of_silent (silent : speech argv (work argv disk).2 = .silent) (console : Console) :
    run argv disk console = { disk := (work argv disk).1, console, result := (work argv disk).2 } := by
  rw [run_eq]
  simp only [silent]
  rfl

theorem run_spares (argv : List Bytes) (disk : Disk) :
    (∀ console, (run argv disk console).console.stdout = console.stdout) ∨
      ∀ console, (run argv disk console).console.stderr = console.stderr := by
  refine (speech argv (work argv disk).2).deliver_spares.imp (fun spared console => ?_) fun spared console => ?_
  · rw [run_eq]
    exact spared console
  · rw [run_eq]
    exact spared console

/-- What a console refuses of a run can be read off what another one has taken. -/
theorem refusal_of_willing (willing : calm.Willing) (fresh : calm.Fresh) (console : Console) :
    console.refusal (run argv disk calm).console = (speech argv (work argv disk).2).refusal console := by
  obtain ⟨-, -, out, err⟩ := run_of_willing argv disk willing fresh
  rw [Console.refusal, out, err, Speech.refusal_eq _ (speech_told argv _)]

theorem exitCode_answered (result : Except Fault Unit) (refusal : Option Cause) :
    exitCode result ≤ exitCode (answered result refusal) := by
  cases refusal with
  | none => exact Nat.le_refl _
  | some cause => cases result <;> simp [answered, exitCode]

/-- A run on any console against the same run on one that takes everything. The work is the same.
    Each stream has taken a front of what it would have taken, and one of the two is never
    spoken to. A refusal by the stream that carries the speech takes the place of the result, no
    other does, and no fault becomes a success. A header that is made is no reason to speak. -/
theorem run_refused (argv : List Bytes) (disk : Disk) {calm console : Console} (willing : calm.Willing)
    (blank : calm.Fresh) (fresh : console.Fresh) :
    let first := run argv disk calm
    let second := run argv disk console
    second.disk = first.disk ∧
    (second.console.stdout.bytes <+: first.console.stdout.bytes ∧
      second.console.stderr.bytes <+: first.console.stderr.bytes) ∧
    ((∀ any, (run argv disk any).console.stdout = any.stdout) ∨
      ∀ any, (run argv disk any).console.stderr = any.stderr) ∧
    exitCode first.result ≤ exitCode second.result ∧
    second.result =
      (match console.refusal first.console, first.result with
      | none, result => result
      | some cause, .ok () => .error (.failed "cannot write to stdout".toList cause)
      | some cause, .error _ => .error (.failed "cannot report error".toList cause)) ∧
    (∀ input output, Request.ofArguments argv.tail = .convert input output → first.result = .ok () →
      second.console = console ∧ second.result = .ok ()) := by
  intro first second
  let said := speech argv (work argv disk).2
  obtain ⟨worked, ended, out, err⟩ := run_of_willing argv disk willing blank
  obtain ⟨out', err', answer⟩ := said.deliver_eq fresh
  have spoken : second = { disk := _, console := _, result := _ } := run_eq argv disk console
  have result : second.result = answered first.result (console.refusal first.console) := by
    rw [spoken, ended, refusal_of_willing willing blank console]
    exact congrArg (answered _) answer
  refine ⟨?_, ⟨?_, ?_⟩, run_spares argv disk, ?_, ?_, ?_⟩
  · rw [spoken, worked]
  · rw [spoken, out]
    exact out' ▸ Sink.fitting_starts _ _
  · rw [spoken, err]
    exact err' ▸ Sink.fitting_starts _ _
  · rw [result]
    exact exitCode_answered _ _
  · rw [result]
    cases console.refusal first.console <;> cases first.result <;> rfl
  · intro input output asked done
    have made : (work argv disk).2 = .ok () := ended.symm.trans done
    have silent : speech argv (work argv disk).2 = .silent := by simp only [speech, asked, made, report]
    have quiet : second = { disk := _, console, result := _ } := run_of_silent silent console
    rw [quiet]
    exact ⟨rfl, made⟩

/-- A usage error whose report breaks off in its second line, and a version that cannot be flushed. -/
theorem run_refused_midway :
    let path (name : String) : Bytes := Utf8.encode name.toList
    let console : Console :=
      { stdout := { limit := some 60, full := .other "sink full".toList, flushFailure := some (.other "flush failed".toList) } }
    let first (argument : String) := run [path "x", path argument] {} {}
    let second (argument : String) := run [path "x", path argument] {} console
    (({} : Console).Willing ∧ ({} : Console).Fresh ∧ console.Fresh) ∧
    ((first "a").result = .error .usage ∧
      (second "a").console.stdout.bytes <+: (first "a").console.stdout.bytes ∧
      (second "a").console.stdout.bytes = path "usage: x <EPAX_C++_interface> <EPAX_C_interface>\nerror: exac" ∧
      (second "a").result = .error (.failed "cannot report error".toList (.other "sink full".toList))) ∧
    ((first "-V").result = .ok () ∧ (second "-V").console.stdout.bytes = path "c_interface 0.2.2\n" ∧
      (second "-V").result = .error (.failed "cannot write to stdout".toList (.other "flush failed".toList))) := by
  intro path console first second
  have willing : ({} : Console).Willing := ⟨⟨rfl, rfl⟩, ⟨rfl, rfl⟩⟩
  have blank : ({} : Console).Fresh := ⟨rfl, rfl⟩
  have fresh : console.Fresh := ⟨rfl, rfl⟩
  obtain ⟨-, ⟨front, -⟩, -, -, reported, -⟩ := run_refused [path "x", path "a"] {} willing blank fresh
  obtain ⟨-, -, -, -, printed, -⟩ := run_refused [path "x", path "-V"] {} willing blank fresh
  refine ⟨⟨willing, blank, fresh⟩, ⟨by decide +kernel, front, by decide +kernel, reported.trans (by decide +kernel)⟩,
    by decide +kernel, by decide +kernel, printed.trans (by decide +kernel)⟩

end PlainHeader
