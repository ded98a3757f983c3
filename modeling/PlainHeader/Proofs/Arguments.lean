import Mathlib.Data.List.Basic
import Mathlib.Data.List.Induction
import Mathlib.Data.List.TakeWhile
import Mathlib.Tactic.MkIffOfInductiveProp
import PlainHeader.CommandLine.Run

/-!
# Accepted command lines

Arguments are read one by one, and the first that settles the request wins. As long as none has,
the reader knows the names so far and whether there was a `--` (`ofArguments_append`), and either
all arguments are read in this way or one of them settles the request, whatever comes behind it
(`pending_or_settled`). So the request can be told of the arguments as a whole: `MadeBy` says
which ones name two files, which ask for the help or the version behind names only, and that all
others are refused.
-/

namespace PlainHeader

namespace Request

/-- Behind the first one of these, every argument is a name. -/
def mark : Bytes := option "--"

/-- Taken for no option: the dash alone, and whatever does not start with a dash. -/
def Plain (argument : Bytes) : Prop := argument = option "-" ∨ ¬ option "-" <+: argument

def AsksHelp (argument : Bytes) : Prop := argument = option "--help" ∨ option "-h" <+: argument

def AsksVersion (argument : Bytes) : Prop := argument = option "--version" ∨ option "-V" <+: argument

instance (argument : Bytes) : Decidable (Plain argument) := inferInstanceAs (Decidable (_ ∨ _))

instance (argument : Bytes) : Decidable (AsksHelp argument) := inferInstanceAs (Decidable (_ ∨ _))

instance (argument : Bytes) : Decidable (AsksVersion argument) := inferInstanceAs (Decidable (_ ∨ _))

/-! ## Requests, told of all arguments -/

/-- Without the first `--` the arguments are two names, and none in front of it is an option. -/
def NamesFiles (arguments : List Bytes) (input output : Bytes) : Prop :=
  arguments.erase mark = [input, output] ∧ input ≠ [] ∧ output ≠ [] ∧
    ∀ argument ∈ arguments.takeWhile (· ≠ mark), Plain argument

/-- An argument asks for something, and in front of it there are at most two names and nothing else. -/
def AsksBehindNames (asks : Bytes → Prop) (arguments : List Bytes) : Prop :=
  ∃ names argument rest, arguments = names ++ argument :: rest ∧ asks argument ∧ names.length ≤ 2 ∧
    ∀ name ∈ names, name ≠ [] ∧ Plain name

/-- The arguments by which a request is made. -/
def MadeBy (arguments : List Bytes) : Request → Prop
  | .help => AsksBehindNames AsksHelp arguments
  | .version => AsksBehindNames AsksVersion arguments
  | .convert input output => NamesFiles arguments input output
  | .invalid =>
    ¬ AsksBehindNames AsksHelp arguments ∧ ¬ AsksBehindNames AsksVersion arguments ∧
      ∀ input output, ¬ NamesFiles arguments input output

/-! ## Requests, settled by one argument -/

/-- Arguments that settle nothing: at most two names, and perhaps a `--` in front of some. -/
@[mk_iff]
structure Pending (arguments : List Bytes) : Prop where
  solid : ∀ argument ∈ arguments, argument ≠ []
  few : (arguments.erase mark).length ≤ 2
  plain : ∀ argument ∈ arguments.takeWhile (· ≠ mark), Plain argument

/-- What an argument settles behind others that have settled nothing. -/
inductive Settles (front : List Bytes) (argument : Bytes) : Request → Prop
  | help (unmarked : mark ∉ front) (asks : AsksHelp argument) : Settles front argument .help
  | version (unmarked : mark ∉ front) (asks : AsksVersion argument) : Settles front argument .version
  /-- An option that is none of the two. -/
  | unknown (unmarked : mark ∉ front) (dashed : ¬ Plain argument) (other : argument ≠ mark)
      (noHelp : ¬ AsksHelp argument) (noVersion : ¬ AsksVersion argument) : Settles front argument .invalid
  | empty (nothing : argument = []) : Settles front argument .invalid
  /-- A third name. -/
  | surplus (two : (front.erase mark).length = 2) (name : mark ∈ front ∨ Plain argument) :
      Settles front argument .invalid

variable {argument input output : Bytes} {front names arguments : List Bytes}

/-! ### Options -/

theorem isHelp_iff : isHelp argument = true ↔ AsksHelp argument := by
  simp [isHelp, AsksHelp]

theorem isVersion_iff : isVersion argument = true ↔ AsksVersion argument := by
  simp [isVersion, AsksVersion]

theorem isOption_iff : isOption argument = true ↔ ¬ Plain argument := by
  simp [isOption, Plain, and_comm]

theorem not_plain_mark : ¬ Plain mark := by decide

/-- Whatever starts with a dash and a letter is taken for an option. -/
theorem not_plain_of_prefix {letters : Bytes} (dashed : option "-" <+: letters) (more : letters ≠ option "-")
    (starts : letters <+: argument) : ¬ Plain argument := by
  rintro (rfl | undashed)
  · exact more (starts.eq_of_length_le dashed.length_le)
  · exact undashed (dashed.trans starts)

theorem AsksHelp.not_plain (asks : AsksHelp argument) : ¬ Plain argument := by
  rcases asks with rfl | starts
  · decide
  · exact not_plain_of_prefix (by decide) (by decide) starts

theorem AsksVersion.not_plain (asks : AsksVersion argument) : ¬ Plain argument := by
  rcases asks with rfl | starts
  · decide
  · exact not_plain_of_prefix (by decide) (by decide) starts

theorem AsksHelp.ne_mark (asks : AsksHelp argument) : argument ≠ mark := by
  rintro rfl
  exact absurd asks (by decide)

theorem AsksVersion.ne_mark (asks : AsksVersion argument) : argument ≠ mark := by
  rintro rfl
  exact absurd asks (by decide)

theorem AsksVersion.not_help (asks : AsksVersion argument) : ¬ AsksHelp argument := by
  rcases asks with rfl | starts
  · decide
  · rintro (rfl | other)
    · exact absurd starts (by decide)
    · have same := (List.prefix_of_prefix_length_le starts other (by decide)).eq_of_length (by decide)
      exact absurd same (by decide)

/-! ### One step of the reader -/

theorem scan_mark (names rest : List Bytes) : scan false names (mark :: rest) = scan true names rest := by
  simp [scan, mark]

/-- An argument is a name behind a `--`, or if it is taken for no option. -/
theorem scan_name {literal : Bool} (name : literal = true ∨ Plain argument) (names rest : List Bytes) :
    scan literal names (argument :: rest) =
      if argument = [] ∨ names.length = 2 then .invalid else scan literal (names ++ [argument]) rest := by
  cases literal with
  | true => simp [scan]
  | false =>
    have plain : Plain argument := name.resolve_left Bool.false_ne_true
    have unmarked : argument ≠ option "--" := by
      rintro rfl
      exact not_plain_mark plain
    have noHelp := mt isHelp_iff.1 fun asks => asks.not_plain plain
    have noVersion := mt isVersion_iff.1 fun asks => asks.not_plain plain
    have noOption := mt isOption_iff.1 (not_not.2 plain)
    simp [scan, unmarked, noHelp, noVersion, noOption]

theorem scan_option (dashed : ¬ Plain argument) (other : argument ≠ mark) (names rest : List Bytes) :
    scan false names (argument :: rest) =
      if AsksHelp argument then .help else if AsksVersion argument then .version else .invalid := by
  have unmarked : argument ≠ option "--" := other
  simp [scan, unmarked, isHelp_iff, isVersion_iff, isOption_iff.2 dashed]

/-- What an argument settles is the request, whatever comes behind it. -/
theorem Settles.scan_eq {request : Request} (settles : Settles front argument request) (rest : List Bytes) :
    scan (decide (mark ∈ front)) (front.erase mark) (argument :: rest) = request := by
  cases settles with
  | help unmarked asks =>
    rw [decide_eq_false unmarked, scan_option asks.not_plain asks.ne_mark, if_pos asks]
  | version unmarked asks =>
    rw [decide_eq_false unmarked, scan_option asks.not_plain asks.ne_mark, if_neg asks.not_help, if_pos asks]
  | unknown unmarked dashed other noHelp noVersion =>
    rw [decide_eq_false unmarked, scan_option dashed other, if_neg noHelp, if_neg noVersion]
  | empty nothing =>
    have plain : Plain argument := nothing ▸ by decide
    rw [scan_name (.inr plain), if_pos (.inl nothing)]
  | surplus two name => rw [scan_name (name.imp_left decide_eq_true), if_pos (.inr two)]

/-! ### Arguments that settle nothing -/

theorem takeWhile_unmarked (unmarked : mark ∉ front) : front.takeWhile (· ≠ mark) = front := by
  rw [List.takeWhile_eq_self_iff]
  intro argument inside
  exact decide_eq_true fun isMark => unmarked (isMark ▸ inside)

theorem pending_iff_of_unmarked (unmarked : mark ∉ names) :
    Pending names ↔ names.length ≤ 2 ∧ ∀ name ∈ names, name ≠ [] ∧ Plain name := by
  rw [pending_iff, takeWhile_unmarked unmarked, List.erase_of_not_mem unmarked]
  constructor
  · rintro ⟨solid, few, plain⟩
    exact ⟨few, fun name inside => ⟨solid name inside, plain name inside⟩⟩
  · rintro ⟨few, each⟩
    exact ⟨fun name inside => (each name inside).1, few, fun name inside => (each name inside).2⟩

/-- Behind a `--`, one more argument settles nothing if it is a first or second name. -/
theorem pending_concat_of_marked (marked : mark ∈ front) :
    Pending (front ++ [argument]) ↔ Pending front ∧ argument ≠ [] ∧ (front.erase mark).length < 2 := by
  have early : (front ++ [argument]).takeWhile (· ≠ mark) = front.takeWhile (· ≠ mark) := by
    rw [List.takeWhile_append, if_neg]
    intro whole
    have kept := List.takeWhile_eq_self_iff.1 ((List.takeWhile_prefix _).eq_of_length whole)
    simpa using kept mark marked
  rw [pending_iff, pending_iff, early, List.erase_append_left _ marked, List.length_append, List.length_singleton,
    List.forall_mem_append, List.forall_mem_singleton]
  constructor
  · rintro ⟨⟨solid, named⟩, few, plain⟩
    exact ⟨⟨solid, by omega, plain⟩, named, by omega⟩
  · rintro ⟨⟨solid, -, plain⟩, named, few⟩
    exact ⟨⟨solid, named⟩, by omega, plain⟩

theorem pending_concat_mark (unmarked : mark ∉ front) : Pending (front ++ [mark]) ↔ Pending front := by
  have early : (front ++ [mark]).takeWhile (· ≠ mark) = front.takeWhile (· ≠ mark) := by
    rw [List.takeWhile_append, takeWhile_unmarked unmarked, if_pos rfl, List.takeWhile_cons_of_neg (by simp),
      List.append_nil]
  have named : mark ≠ [] := by decide
  rw [pending_iff, pending_iff, early, List.erase_append_right _ unmarked, List.erase_of_not_mem unmarked,
    List.erase_cons_head, List.append_nil, List.forall_mem_append, List.forall_mem_singleton]
  simp only [named, ne_eq, not_false_eq_true, and_true]

/-- Without a `--`, one more argument settles nothing if it is a first or second name, and not
    taken for an option. -/
theorem pending_concat_of_unmarked (unmarked : mark ∉ front) (other : argument ≠ mark) :
    Pending (front ++ [argument]) ↔ Pending front ∧ argument ≠ [] ∧ Plain argument ∧ front.length < 2 := by
  have still : mark ∉ front ++ [argument] := by
    simpa [unmarked] using other.symm
  rw [pending_iff_of_unmarked unmarked, pending_iff_of_unmarked still, List.length_append, List.length_singleton,
    List.forall_mem_append, List.forall_mem_singleton]
  constructor
  · rintro ⟨few, each, named, plain⟩
    exact ⟨⟨by omega, each⟩, named, plain, by omega⟩
  · rintro ⟨⟨-, each⟩, named, plain, few⟩
    exact ⟨by omega, each, named, plain⟩

/-- Behind arguments that settle nothing, the reader knows the names so far and whether there was
    a `--`. -/
theorem ofArguments_append (pending : Pending front) (rest : List Bytes) :
    ofArguments (front ++ rest) = scan (decide (mark ∈ front)) (front.erase mark) rest := by
  induction front using List.reverseRecOn generalizing rest with
  | nil => rfl
  | append_singleton front argument ih =>
    rw [List.append_assoc, List.singleton_append]
    by_cases marked : mark ∈ front
    · obtain ⟨pending, named, few⟩ := (pending_concat_of_marked marked).1 pending
      have reads : ¬ (argument = [] ∨ (front.erase mark).length = 2) := not_or.2 ⟨named, few.ne⟩
      rw [ih pending, scan_name (.inl (decide_eq_true marked)), if_neg reads, List.erase_append_left _ marked]
      simp only [marked, List.mem_append, true_or]
    by_cases isMark : argument = mark
    · subst isMark
      rw [ih ((pending_concat_mark marked).1 pending), decide_eq_false marked, scan_mark, List.erase_append_right _ marked,
        List.erase_cons_head, List.append_nil, List.erase_of_not_mem marked]
      simp only [List.mem_append, List.mem_singleton, or_true, decide_true]
    · obtain ⟨pending, named, plain, few⟩ := (pending_concat_of_unmarked marked isMark).1 pending
      have reads : ¬ (argument = [] ∨ front.length = 2) := not_or.2 ⟨named, few.ne⟩
      have still : mark ∉ front ++ [argument] := by
        simpa [marked] using Ne.symm isMark
      rw [ih pending, scan_name (.inr plain), List.erase_of_not_mem marked, if_neg reads, List.erase_of_not_mem still,
        decide_eq_false marked, decide_eq_false still]

theorem ofArguments_of_pending (pending : Pending arguments) :
    ofArguments arguments = match arguments.erase mark with
      | [input, output] => .convert input output
      | _ => .invalid := by
  have read := ofArguments_append pending []
  rw [List.append_nil] at read
  exact read

theorem ofArguments_of_settles {request : Request} (pending : Pending front) (settles : Settles front argument request)
    (rest : List Bytes) : ofArguments (front ++ argument :: rest) = request := by
  rw [ofArguments_append pending, settles.scan_eq]

theorem pending_or_settles (pending : Pending front) (argument : Bytes) :
    Pending (front ++ [argument]) ∨ ∃ request, Settles front argument request := by
  by_cases nothing : argument = []
  · exact .inr ⟨_, .empty nothing⟩
  by_cases two : (front.erase mark).length = 2 ∧ (mark ∈ front ∨ Plain argument)
  · exact .inr ⟨_, .surplus two.1 two.2⟩
  have few := pending.few
  by_cases marked : mark ∈ front
  · have one : (front.erase mark).length ≠ 2 := fun two' => two ⟨two', .inl marked⟩
    exact .inl ((pending_concat_of_marked marked).2 ⟨pending, nothing, by omega⟩)
  by_cases isMark : argument = mark
  · exact .inl (isMark ▸ (pending_concat_mark marked).2 pending)
  by_cases plain : Plain argument
  · rw [List.erase_of_not_mem marked] at two few
    have one : front.length ≠ 2 := fun two' => two ⟨two', .inr plain⟩
    exact .inl ((pending_concat_of_unmarked marked isMark).2 ⟨pending, nothing, plain, by omega⟩)
  by_cases help : AsksHelp argument
  · exact .inr ⟨_, .help marked help⟩
  by_cases version : AsksVersion argument
  · exact .inr ⟨_, .version marked version⟩
  · exact .inr ⟨_, .unknown marked plain isMark help version⟩

/-- Either all arguments are read and nothing is settled, or one of them settles the request. -/
theorem pending_or_settled (arguments : List Bytes) :
    Pending arguments ∨ ∃ front argument rest request, arguments = front ++ argument :: rest ∧ Pending front ∧
      Settles front argument request := by
  induction arguments using List.reverseRecOn with
  | nil => exact .inl ((pending_iff_of_unmarked List.not_mem_nil).2 ⟨Nat.zero_le 2, nofun⟩)
  | append_singleton arguments last ih =>
    rcases ih with pending | ⟨front, argument, rest, request, rfl, pending, settles⟩
    · rcases pending_or_settles pending last with still | ⟨request, settles⟩
      · exact .inl still
      · exact .inr ⟨arguments, last, [], request, rfl, pending, settles⟩
    · exact .inr ⟨front, argument, rest ++ [last], request, by simp, pending, settles⟩

/-! ### The two accounts agree -/

theorem NamesFiles.pending (named : NamesFiles arguments input output) : Pending arguments := by
  obtain ⟨left, inputNamed, outputNamed, plain⟩ := named
  refine ⟨?_, by rw [left]; exact Nat.le_refl 2, plain⟩
  intro argument inside
  by_cases isMark : argument = mark
  · rw [isMark]
    decide
  · have kept := (List.mem_erase_of_ne isMark).2 inside
    rw [left] at kept
    rcases List.mem_pair.1 kept with rfl | rfl
    · exact inputNamed
    · exact outputNamed

theorem ofArguments_eq_convert_iff :
    ofArguments arguments = .convert input output ↔ NamesFiles arguments input output := by
  constructor
  · intro asked
    rcases pending_or_settled arguments with pending | ⟨front, argument, rest, request, rfl, pending, settles⟩
    · rw [ofArguments_of_pending pending] at asked
      split at asked
      case h_1 first second left =>
        obtain ⟨rfl, rfl⟩ := Request.convert.inj asked
        have named : ∀ name ∈ arguments.erase mark, name ≠ [] := fun name inside =>
          pending.solid name (List.mem_of_mem_erase inside)
        rw [left] at named
        exact ⟨left, named _ (by simp), named _ (by simp), pending.plain⟩
      case h_2 => cases asked
    · rw [ofArguments_of_settles pending settles] at asked
      rw [asked] at settles
      cases settles
  · intro named
    rw [ofArguments_of_pending named.pending, named.1]

/-- A request that one argument settles, and only in front of a `--`, is made when that argument
    stands behind names only. -/
theorem ofArguments_eq_iff_asks {request : Request} {asks : Bytes → Prop}
    (settled : ∀ front argument, Settles front argument request ↔ mark ∉ front ∧ asks argument)
    (told : ∀ input output, request ≠ .convert input output) (valid : request ≠ .invalid) :
    ofArguments arguments = request ↔ AsksBehindNames asks arguments := by
  constructor
  · rintro rfl
    rcases pending_or_settled arguments with pending | ⟨front, argument, rest, request, rfl, pending, settles⟩
    · have read := ofArguments_of_pending pending
      split at read
      case h_1 => exact absurd read (told _ _)
      case h_2 => exact absurd read valid
    · rw [← ofArguments_of_settles pending settles rest] at settles
      obtain ⟨unmarked, asked⟩ := (settled front argument).1 settles
      obtain ⟨few, each⟩ := (pending_iff_of_unmarked unmarked).1 pending
      exact ⟨front, argument, rest, rfl, asked, few, each⟩
  · rintro ⟨names, argument, rest, rfl, asked, few, each⟩
    have unmarked : mark ∉ names := fun inside => not_plain_mark (each mark inside).2
    have pending := (pending_iff_of_unmarked unmarked).2 ⟨few, each⟩
    exact ofArguments_of_settles pending ((settled names argument).2 ⟨unmarked, asked⟩) rest

theorem ofArguments_eq_help_iff : ofArguments arguments = .help ↔ AsksBehindNames AsksHelp arguments := by
  refine ofArguments_eq_iff_asks (fun front argument => ⟨?_, ?_⟩) nofun nofun
  · intro settles
    cases settles with
    | help unmarked asks => exact ⟨unmarked, asks⟩
  · rintro ⟨unmarked, asks⟩
    exact .help unmarked asks

theorem ofArguments_eq_version_iff : ofArguments arguments = .version ↔ AsksBehindNames AsksVersion arguments := by
  refine ofArguments_eq_iff_asks (fun front argument => ⟨?_, ?_⟩) nofun nofun
  · intro settles
    cases settles with
    | version unmarked asks => exact ⟨unmarked, asks⟩
  · rintro ⟨unmarked, asks⟩
    exact .version unmarked asks

theorem ofArguments_eq_iff (request : Request) : ofArguments arguments = request ↔ MadeBy arguments request := by
  cases request with
  | help => exact ofArguments_eq_help_iff
  | version => exact ofArguments_eq_version_iff
  | convert input output => exact ofArguments_eq_convert_iff
  | invalid =>
    rw [MadeBy, ← ofArguments_eq_help_iff, ← ofArguments_eq_version_iff]
    simp only [← ofArguments_eq_convert_iff]
    cases ofArguments arguments <;> simp

end Request

/-- A run does what its arguments, taken as a whole, make it do, for every command line, disk and
    console: it makes a header for two names, it prints the help or the version when that is asked
    for behind names only, and it shows its usage for all other arguments. Either all arguments are
    read and nothing is settled, or one of them settles the help, the version or an error, and then
    the arguments behind it change nothing. -/
theorem run_madeBy (argv : List Bytes) :
    (∀ request, Request.ofArguments argv.tail = request ↔ Request.MadeBy argv.tail request) ∧
    (∀ disk console,
      (∀ input output, Request.MadeBy argv.tail (.convert input output) →
        let made := disk.makeHeader Rules.epax input output (banner argv)
        let said := console.conclude (Wording.calledName argv) made.2
        run argv disk console = { disk := made.1, console := said.1, result := said.2 }) ∧
      (Request.MadeBy argv.tail .help →
        let said := console.inform (Wording.help (Wording.shownName argv))
        run argv disk console = { disk, console := said.1, result := said.2 }) ∧
      (Request.MadeBy argv.tail .version →
        let said := console.inform Wording.version
        run argv disk console = { disk, console := said.1, result := said.2 }) ∧
      (Request.MadeBy argv.tail .invalid →
        let said := console.conclude (Wording.calledName argv) (.error .usage)
        run argv disk console = { disk, console := said.1, result := said.2 })) ∧
    (Request.Pending argv.tail ∨ ∃ front argument rest request, argv.tail = front ++ argument :: rest ∧
      Request.Pending front ∧ Request.Settles front argument request) ∧
    ∀ front argument rest request, argv.tail = front ++ argument :: rest → Request.Pending front →
      Request.Settles front argument request →
        Request.MadeBy argv.tail request ∧ ∀ later disk console, run (argv ++ later) disk console = run argv disk console := by
  have made (request : Request) : Request.ofArguments argv.tail = request ↔ Request.MadeBy argv.tail request :=
    Request.ofArguments_eq_iff request
  refine ⟨made, ?_, Request.pending_or_settled argv.tail, ?_⟩
  · intro disk console
    simp only [← made]
    refine ⟨fun input output asked => ?_, fun asked => ?_, fun asked => ?_, fun asked => ?_⟩ <;>
      simp only [run, asked]
  · intro front argument rest request split pending settles
    obtain ⟨program, rfl⟩ : ∃ program, argv = program :: (front ++ argument :: rest) := by
      cases argv with
      | nil => simp at split
      | cons program arguments => exact ⟨program, congrArg _ split⟩
    have asked := Request.ofArguments_of_settles pending settles
    refine ⟨(made request).1 (asked rest), fun later disk console => ?_⟩
    have still : Request.ofArguments ((front ++ argument :: rest) ++ later) = request := by
      rw [List.append_assoc, List.cons_append, asked]
    unfold run
    rw [List.cons_append, List.tail_cons, List.tail_cons, still, asked]
    cases settles <;> rfl

/-- Names that look like options, the help behind two names, and an empty name that settles an
    error although the help is asked for behind it. -/
theorem run_madeBy_dashes :
    let path (name : String) : Bytes := Utf8.encode name.toList
    Request.NamesFiles [path "-", path "--", path "-h"] (path "-") (path "-h") ∧
      Request.AsksBehindNames Request.AsksHelp [path "a", path "-", path "-hV", path "--", path "c"] ∧
      Request.Settles [path "a"] [] .invalid ∧
      ∀ disk console, run [path "x", path "a", [], path "--help"] disk console = run [path "x", path "a", []] disk console := by
  intro path
  have settles : Request.Settles [path "a"] [] .invalid := .empty rfl
  have pending : Request.Pending [path "a"] := ⟨by decide, by decide, by decide⟩
  refine ⟨((run_madeBy [path "x", path "-", path "--", path "-h"]).1 (.convert (path "-") (path "-h"))).1 (by decide),
    ((run_madeBy [path "x", path "a", path "-", path "-hV", path "--", path "c"]).1 .help).1 (by decide), settles, ?_⟩
  exact ((run_madeBy [path "x", path "a", []]).2.2.2 [path "a"] [] [] .invalid rfl pending settles).2 [path "--help"]

end PlainHeader
