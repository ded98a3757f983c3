import Mathlib.Data.List.TakeWhile
import PlainHeader.CommandLine.Run
import PlainHeader.Proofs.Buffering
import PlainHeader.Proofs.Locality
import PlainHeader.Proofs.Lossy
import PlainHeader.Proofs.Resolution
import PlainHeader.Proofs.TextLines

/-!
# The banner as a comment

The arguments stand in the banner as they are, so one of them can end the comment or its line.
Nothing else can: no argument is joined with its neighbours, or with the quotes around all of
them, to the mark that closes a comment, and the characters that stand for bytes that are no
UTF-8 are not part of it.

The first line of a header is the banner up to its first line feed. It can be a closed comment
when the banner is none: then an argument closes the comment and ends the line right behind the
mark (`Closes`), and no argument before it does either.
-/

namespace PlainHeader

namespace Text

/-- Neither ends a line nor closes a comment. -/
def Harmless (text : Text) : Prop := '\n' ∉ text ∧ ¬ "*/".toList <:+: text

instance (text : Text) : Decidable (Harmless text) := inferInstanceAs (Decidable (_ ∧ _))

/-- Closes a comment and ends the line right behind, and does neither before. -/
def Closes (text : Text) : Prop := ∃ before after, text = before ++ "*/\n".toList ++ after ∧ Harmless before

/-- A comment on one line that is closed at its end, and not before. -/
structure ClosedComment (text : Text) : Prop where
  opened : "/*".toList <+: text
  unbroken : '\n' ∉ text
  closed : ∀ i, "*/".toList <+: text.drop i ↔ i + 2 = text.length

def firstLine (text : Text) : Text := text.takeWhile (· ≠ '\n')

variable {c : Char} {front rest body text : Text}

/-! ## Marks in a text of several parts -/

/-- A character that is in neither mark parts a text into two that are judged apart. -/
theorem harmless_append_cons (foreign : c ∉ "*/\n".toList) :
    Harmless (front ++ c :: rest) ↔ Harmless front ∧ Harmless rest := by
  have unclosing : c ∉ "*/".toList := fun inside => foreign (List.mem_append_left ['\n'] inside)
  have other : '\n' ≠ c := by
    rintro rfl
    exact foreign (by simp)
  unfold Harmless
  rw [infix_append_cons_iff unclosing, List.mem_append, List.mem_cons, or_iff_right other, not_or, not_or]
  exact and_and_and_comm

/-- The first mark is in the front, or the front has none. -/
theorem closes_append_cons (foreign : c ∉ "*/\n".toList) :
    Closes (front ++ c :: rest) ↔ Closes front ∨ Harmless front ∧ Closes rest := by
  constructor
  · rintro ⟨before, after, split, harmless⟩
    rw [List.append_assoc] at split
    rcases List.append_eq_append_iff.1 split with ⟨inner, rfl, parted⟩ | ⟨inner, rfl, parted⟩
    · -- the marks are behind the front, and `c` is not the first of them
      cases inner with
      | nil =>
        obtain ⟨rfl, -⟩ := List.cons.inj parted
        exact absurd List.mem_cons_self foreign
      | cons d inner =>
        obtain ⟨rfl, rfl⟩ := List.cons.inj parted
        obtain ⟨before, within⟩ := (harmless_append_cons foreign).1 harmless
        exact .inr ⟨before, inner, after, (List.append_assoc _ _ _).symm, within⟩
    · -- the marks begin in the front, and end there because `c` is none of them
      rcases List.append_eq_append_iff.1 parted with ⟨later, rfl, -⟩ | ⟨left, marks, follows⟩
      · exact .inl ⟨before, later, (List.append_assoc _ _ _).symm, harmless⟩
      · cases left with
        | nil =>
          rw [List.append_nil] at marks
          exact .inl ⟨before, [], by rw [marks, List.append_nil], harmless⟩
        | cons d left =>
          obtain ⟨rfl, -⟩ := List.cons.inj follows
          exact absurd (by simp [marks]) foreign
  · rintro (⟨before, after, rfl, harmless⟩ | ⟨harmless, before, after, rfl, within⟩)
    · exact ⟨before, after ++ c :: rest, by simp, harmless⟩
    · exact ⟨front ++ c :: before, after, by simp, (harmless_append_cons foreign).2 ⟨harmless, within⟩⟩

theorem not_closes_nil : ¬ Closes [] := by
  rintro ⟨before, after, split, -⟩
  simp at split

/-- A star at the end closes nothing. -/
theorem harmless_concat_star (body : Text) : Harmless (body ++ ['*']) ↔ Harmless body := by
  have uncrossed : Uncrossed "*/".toList body ['*'] := by
    intro i inside below _
    have below : i < 2 := below
    obtain rfl : i = 1 := by omega
    decide
  have star : ¬ "*/".toList <:+: ['*'] := by decide
  unfold Harmless
  rw [uncrossed.infix_append_iff, or_iff_left star]
  simp

/-! ## Closed comments -/

/-- The closing mark stands only at the end of a text when it does not stand in front of the last slash. -/
theorem closed_iff (body : Text) :
    (∀ i, "*/".toList <+: (body ++ "*/".toList).drop i ↔ i + 2 = (body ++ "*/".toList).length) ↔
      ¬ "*/".toList <:+: body ++ ['*'] := by
  have whole : body ++ "*/".toList = (body ++ ['*']) ++ ['/'] := (List.append_assoc body ['*'] ['/']).symm
  have length : (body ++ "*/".toList).length = body.length + 2 := List.length_append
  rw [length]
  constructor
  · rintro closed ⟨before, after, split⟩
    have stands : "*/".toList <+: (body ++ "*/".toList).drop before.length := by
      rw [whole, ← split, List.append_assoc, List.append_assoc, List.drop_left]
      exact List.prefix_append _ _
    have placed := (closed before.length).1 stands
    have lengths := congrArg List.length split
    have two : "*/".toList.length = 2 := rfl
    simp only [List.length_append, List.length_singleton, two] at lengths
    omega
  · intro absent i
    constructor
    · rintro ⟨after, split⟩
      rcases List.eq_nil_or_concat after with rfl | ⟨later, last, rfl⟩
      · have lengths := congrArg List.length split
        have two : "*/".toList.length = 2 := rfl
        simp only [List.append_nil, List.length_drop, length, two] at lengths
        omega
      · -- what follows the mark reaches to the last slash, so the mark stands in front of it
        have parts := List.take_append_drop i (body ++ "*/".toList)
        rw [← split, whole, List.concat_eq_append, ← List.append_assoc, ← List.append_assoc] at parts
        exact absurd ⟨_, later, (List.append_inj' parts rfl).1⟩ absent
    · intro placed
      obtain rfl : i = body.length := by omega
      rw [List.drop_left]

/-- A comment is closed at its end, and not before, when nothing in front of the closing mark is a mark. -/
theorem closedComment_iff (opened : "/*".toList <+: body ++ "*/".toList) :
    ClosedComment (body ++ "*/".toList) ↔ Harmless body := by
  have same : '\n' ∈ body ++ "*/".toList ↔ '\n' ∈ body ++ ['*'] := by simp
  rw [← harmless_concat_star, Harmless, ← closed_iff, ← same]
  exact ⟨fun comment => ⟨comment.unbroken, comment.closed⟩, fun harmless => ⟨opened, harmless.1, harmless.2⟩⟩

theorem ClosedComment.exists_body (comment : ClosedComment text) : ∃ body, text = body ++ "*/".toList := by
  have long : 2 ≤ text.length := comment.opened.length_le
  have ends : "*/".toList <+: text.drop (text.length - 2) := (comment.closed _).2 (by omega)
  have whole : "*/".toList = text.drop (text.length - 2) := ends.eq_of_length (by simp; omega)
  exact ⟨text.take (text.length - 2), by rw [whole, List.take_append_drop]⟩

/-! ## First lines -/

theorem unbroken_iff : '\n' ∉ text ↔ ∀ c ∈ text, decide (c ≠ '\n') = true := by
  simp only [decide_eq_true_eq]
  exact ⟨fun absent c inside same => absent (same ▸ inside), fun other inside => other _ inside rfl⟩

theorem firstLine_eq_self (unbroken : '\n' ∉ text) : firstLine text = text :=
  List.takeWhile_eq_self_iff.2 (unbroken_iff.1 unbroken)

theorem firstLine_append_lineFeed (unbroken : '\n' ∉ front) (rest : Text) :
    firstLine (front ++ '\n' :: rest) = front := by
  rw [firstLine, List.takeWhile_append_of_pos (unbroken_iff.1 unbroken), List.takeWhile_cons_of_neg (by simp),
    List.append_nil]

/-- The first line of a comment is closed when the comment is, or when its first mark closes it
    with the end of the line behind. -/
theorem closedComment_firstLine_iff (opened : "/*".toList <+: text) :
    ClosedComment (firstLine text) ↔ ClosedComment text ∨ Closes text := by
  by_cases broken : '\n' ∈ text
  · have unclosed : ¬ ClosedComment text := fun comment => comment.unbroken broken
    obtain ⟨line, rest, rfl, unbroken⟩ := List.eq_append_cons_of_mem broken
    rw [firstLine_append_lineFeed unbroken, or_iff_right unclosed]
    constructor
    · intro comment
      obtain ⟨body, rfl⟩ := comment.exists_body
      exact ⟨body, rest, by simp, (closedComment_iff comment.opened).1 comment⟩
    · rintro ⟨before, after, split, harmless⟩
      have marked : '\n' ∉ before ++ "*/".toList := by simpa using harmless.1
      -- the line is what stands before the first line feed, on both sides
      have marks : before ++ "*/\n".toList ++ after = (before ++ "*/".toList) ++ '\n' :: after := by simp
      have same : line = before ++ "*/".toList := by
        rw [← firstLine_append_lineFeed unbroken rest, split, marks, firstLine_append_lineFeed marked]
      subst same
      have short : "/*".toList.length ≤ (before ++ "*/".toList).length := by simp
      exact (closedComment_iff (List.prefix_of_prefix_length_le opened (List.prefix_append _ _) short)).2 harmless
  · have unclosing : ¬ Closes text := by
      rintro ⟨before, after, rfl, -⟩
      exact broken (by simp)
    rw [firstLine_eq_self broken, or_iff_left unclosing]

end Text

/-! ## Bytes -/

namespace Utf8

/-- Reading bytes as text brings in no line feed and no closing mark, and loses none. -/
theorem decodeLossy_marks (bytes : Bytes) :
    ('\n' ∈ decodeLossy bytes ↔ Source.lineFeed ∈ bytes) ∧
      ("*/".toList <:+: decodeLossy bytes ↔ encode "*/".toList <:+: bytes) := by
  have shown := shownAs_decodeLossy bytes
  have feed : encode ['\n'] = [Source.lineFeed] := by decide
  refine ⟨?_, (shown.infix_iff (by decide) (by decide)).symm⟩
  rw [← List.singleton_infix_iff, ← shown.infix_iff (by decide) (by decide), feed, List.singleton_infix_iff]

theorem takeWhile_encode_append {front : Text} (unbroken : '\n' ∉ front) (rest : Bytes) :
    (encode front ++ Source.lineFeed :: rest).takeWhile (· ≠ Source.lineFeed) = encode front := by
  have kept : ∀ b ∈ encode front, decide (b ≠ Source.lineFeed) = true := by
    intro b inside
    refine decide_eq_true fun isFeed => unbroken ?_
    rwa [isFeed, lineFeed_mem_encode_iff] at inside
  rw [List.takeWhile_append_of_pos kept, List.takeWhile_cons_of_neg (by simp), List.append_nil]

/-- The first line of the bytes of a line, which may hold line feeds. -/
theorem takeWhile_encode (text : Text) (rest : Bytes) :
    (encode text ++ Source.lineFeed :: rest).takeWhile (· ≠ Source.lineFeed) = encode text.firstLine := by
  by_cases broken : '\n' ∈ text
  · obtain ⟨front, later, rfl, unbroken⟩ := List.eq_append_cons_of_mem broken
    have feed : encode ('\n' :: later) = Source.lineFeed :: encode later := rfl
    rw [Text.firstLine_append_lineFeed unbroken, encode_append, feed, List.append_assoc, List.cons_append,
      takeWhile_encode_append unbroken]
  · rw [Text.firstLine_eq_self broken, takeWhile_encode_append broken]

end Utf8

/-! ## Banners -/

theorem commandLine_cons_cons (argument next : Bytes) (argv : List Bytes) :
    commandLine (argument :: next :: argv) = Utf8.decodeLossy argument ++ ' ' :: commandLine (next :: argv) := by
  simp [commandLine]

theorem banner_eq (argv : List Bytes) :
    banner argv =
      "/* automatically generated via ".toList ++ '\x60' :: (commandLine argv ++ '\x27' :: " */".toList) := by
  have opening : "/* automatically generated via `".toList = "/* automatically generated via ".toList ++ ['\x60'] := rfl
  have ending : "' */".toList = '\x27' :: " */".toList := rfl
  have spelled : banner argv = "/* automatically generated via `".toList ++ commandLine argv ++ "' */".toList := rfl
  rw [spelled, opening, ending]
  simp only [List.append_assoc, List.cons_append, List.nil_append]

theorem opened_banner (argv : List Bytes) : "/*".toList <+: banner argv := ⟨_, (banner_eq argv).symm⟩

theorem harmless_commandLine (argv : List Bytes) :
    Text.Harmless (commandLine argv) ↔ ∀ argument ∈ argv, Text.Harmless (Utf8.decodeLossy argument) := by
  induction argv with
  | nil => decide
  | cons argument argv ih =>
    cases argv with
    | nil => simp [commandLine]
    | cons next argv =>
      rw [commandLine_cons_cons, Text.harmless_append_cons (by decide), ih]
      exact (List.forall_mem_cons (p := fun argument => Text.Harmless (Utf8.decodeLossy argument))).symm

/-- The first element with one property behind elements with another is the head, or it is in the
    tail of a list whose head has the other. -/
theorem exists_first_cons {α : Type} {P Q : α → Prop} {x : α} {xs : List α} :
    (∃ front y rest, x :: xs = front ++ y :: rest ∧ (∀ z ∈ front, P z) ∧ Q y) ↔
      Q x ∨ P x ∧ ∃ front y rest, xs = front ++ y :: rest ∧ (∀ z ∈ front, P z) ∧ Q y := by
  constructor
  · rintro ⟨front, y, rest, split, each, found⟩
    cases front with
    | nil =>
      obtain ⟨rfl, rfl⟩ := List.cons.inj split
      exact .inl found
    | cons z front =>
      obtain ⟨rfl, rfl⟩ := List.cons.inj split
      obtain ⟨first, others⟩ := List.forall_mem_cons.1 each
      exact .inr ⟨first, front, y, rest, rfl, others, found⟩
  · rintro (found | ⟨first, front, y, rest, rfl, others, found⟩)
    · exact ⟨[], x, xs, rfl, nofun, found⟩
    · exact ⟨x :: front, y, rest, rfl, List.forall_mem_cons.2 ⟨first, others⟩, found⟩

/-- The first mark of a command line is in the first argument that has one. -/
theorem closes_commandLine (argv : List Bytes) :
    Text.Closes (commandLine argv) ↔ ∃ front argument rest, argv = front ++ argument :: rest ∧
      (∀ other ∈ front, Text.Harmless (Utf8.decodeLossy other)) ∧ Text.Closes (Utf8.decodeLossy argument) := by
  induction argv with
  | nil => exact iff_of_false Text.not_closes_nil (by simp)
  | cons argument argv ih =>
    rw [exists_first_cons, ← ih]
    cases argv with
    | nil => simp [commandLine, Text.not_closes_nil]
    | cons next argv => rw [commandLine_cons_cons, Text.closes_append_cons (by decide)]

theorem closedComment_banner (argv : List Bytes) :
    Text.ClosedComment (banner argv) ↔ ∀ argument ∈ argv, Text.Harmless (Utf8.decodeLossy argument) := by
  have marked : banner argv =
      "/* automatically generated via ".toList ++ '\x60' :: (commandLine argv ++ '\x27' :: [' ']) ++ "*/".toList := by
    rw [banner_eq]
    simp
  have opening : Text.Harmless "/* automatically generated via ".toList := by decide
  have ending : Text.Harmless [' '] := by decide
  have opened := opened_banner argv
  rw [marked] at opened ⊢
  rw [Text.closedComment_iff opened, Text.harmless_append_cons (by decide), and_iff_right opening,
    Text.harmless_append_cons (by decide), and_iff_left ending, harmless_commandLine]

theorem closes_banner (argv : List Bytes) : Text.Closes (banner argv) ↔ Text.Closes (commandLine argv) := by
  have unbroken {text : Text} (absent : '\n' ∉ text) : ¬ Text.Closes text := by
    rintro ⟨before, after, rfl, -⟩
    exact absent (by simp)
  have opening : Text.Harmless "/* automatically generated via ".toList := by decide
  rw [banner_eq, Text.closes_append_cons (by decide), or_iff_right (unbroken opening.1), and_iff_right opening,
    Text.closes_append_cons (by decide), or_iff_left fun later => unbroken (by decide) later.2]

/-- The first line of a header is that of its banner, whatever ends the work, and also over its own input. -/
theorem firstLine_makeHeader {disk : Disk} {input output : Bytes} {file : Location × Bytes} {there : Location}
    (found : disk.file? input = some file) (readable : disk.refusal .reading file.1 = none)
    (opened : disk.target output = .ok (.file there)) (rules : Rules) (banner : Text) :
    ∃ contents, (disk.makeHeader rules input output banner).1.file? output = some (there, contents) ∧
      contents.takeWhile (· ≠ Source.lineFeed) = Utf8.encode banner.firstLine := by
  obtain ⟨rest, begins⟩ :
      bannerLine banner <+: (Disk.headerAt rules input output banner file (.file there)).1.bytes :=
    bannerLine_prefix_writeHeader (fun _ unlimited => extends_headerBody unlimited _ _ _ _ _) _ banner
  refine ⟨bannerLine banner ++ rest, ?_, ?_⟩
  · rw [Disk.makeHeader_of_opened found readable opened, Disk.file?_fill opened, begins]
  · rw [bannerLine, List.append_assoc, List.singleton_append, Utf8.takeWhile_encode]

/-- The banner is a single closed comment on one line exactly when no argument, read as text, holds
    a line feed or the mark that closes a comment, and reading it as text brings in neither: an
    argument holds one of them as text exactly when it holds the bytes. Every header that is made
    begins with the first line of the banner. That line is a closed comment for these arguments,
    and else only when the first argument that holds a mark closes the comment with a line feed
    right behind, and holds no mark before. -/
theorem closedComment_banner_iff (argv : List Bytes) :
    (Text.ClosedComment (banner argv) ↔
      ∀ argument ∈ argv, '\n' ∉ Utf8.decodeLossy argument ∧ ¬ "*/".toList <:+: Utf8.decodeLossy argument) ∧
    (∀ argument, ('\n' ∈ Utf8.decodeLossy argument ↔ Source.lineFeed ∈ argument) ∧
      ("*/".toList <:+: Utf8.decodeLossy argument ↔ Utf8.encode "*/".toList <:+: argument)) ∧
    (∀ (disk : Disk) (rules : Rules) (input output : Bytes) (file : Location × Bytes) (there : Location),
      disk.file? input = some file → disk.refusal .reading file.1 = none → disk.target output = .ok (.file there) →
        ∃ contents, (disk.makeHeader rules input output (banner argv)).1.file? output = some (there, contents) ∧
          contents.takeWhile (· ≠ Source.lineFeed) = Utf8.encode (banner argv).firstLine) ∧
    (Text.ClosedComment (banner argv).firstLine ↔
      (∀ argument ∈ argv, '\n' ∉ Utf8.decodeLossy argument ∧ ¬ "*/".toList <:+: Utf8.decodeLossy argument) ∨
      ∃ front argument rest, argv = front ++ argument :: rest ∧
        (∀ other ∈ front, '\n' ∉ Utf8.decodeLossy other ∧ ¬ "*/".toList <:+: Utf8.decodeLossy other) ∧
        ∃ before after, Utf8.decodeLossy argument = before ++ "*/\n".toList ++ after ∧
          '\n' ∉ before ∧ ¬ "*/".toList <:+: before) := by
  have commented := closedComment_banner argv
  refine ⟨commented, Utf8.decodeLossy_marks, ?_, ?_⟩
  · intro disk rules input output file there found readable opened
    exact firstLine_makeHeader found readable opened rules (banner argv)
  · rw [Text.closedComment_firstLine_iff (opened_banner argv), commented, closes_banner, closes_commandLine]
    exact Iff.rfl

/-- A star and a slash are not joined across a space or across a byte that is no UTF-8, but an
    argument can bring both. The banner of a header that is made by name is its first line. -/
theorem closedComment_banner_iff_joined :
    let path (name : String) : Bytes := Utf8.encode name.toList
    let disk : Disk := { nodes := [([path "in*"], .file (path "int a;\n"))] }
    let argv := [path "x", path "in*", path "out"]
    Text.ClosedComment (banner [path "x*", path "/y*", [0x2A, 0xFF, 0x2F]]) ∧
      ¬ Text.ClosedComment (banner [path "x", path "in*/", path "out"]) ∧
      Text.ClosedComment (banner [path "x*", path "in*/\n*/", path "out"]).firstLine ∧
      ∃ contents, (disk.makeHeader Rules.epax (path "in*") (path "out") (banner argv)).1.file? (path "out") =
          some ([path "out"], contents) ∧
        contents.takeWhile (· ≠ Source.lineFeed) = path "/* automatically generated via `x in* out' */" := by
  intro path disk argv
  have found : disk.file? (path "in*") = some ([path "in*"], path "int a;\n") := by decide +kernel
  have opened : disk.target (path "out") = .ok (.file [path "out"]) := by decide +kernel
  have shown : Utf8.encode (banner argv).firstLine = path "/* automatically generated via `x in* out' */" := by
    decide +kernel
  have harmful : ¬ Text.ClosedComment (banner [path "x", path "in*/", path "out"]) :=
    mt (closedComment_banner_iff _).1.1 (by decide +kernel)
  obtain ⟨-, -, made, -⟩ := closedComment_banner_iff argv
  obtain ⟨-, -, -, closed⟩ := closedComment_banner_iff [path "x*", path "in*/\n*/", path "out"]
  refine ⟨(closedComment_banner_iff _).1.2 (by decide +kernel), harmful, closed.2 (.inr ?_), ?_⟩
  · exact ⟨[path "x*"], path "in*/\n*/", [path "out"], rfl, by decide +kernel, "in".toList, "*/".toList, by
      decide +kernel⟩
  · rw [← shown]
    exact made disk Rules.epax _ _ _ _ found rfl opened

/-- The first line of a header that is made can be a closed comment although an argument holds
    both marks. -/
theorem firstLine_closed_by_argument :
    let path (name : String) : Bytes := Utf8.encode name.toList
    let argv := [path "*/\n", path "in", path "out"]
    let disk : Disk := { nodes := [([path "in"], .file (path "int a;\n"))] }
    let line := "/* automatically generated via `*/".toList
    (∃ contents, (run argv disk {}).disk.file? (path "out") = some ([path "out"], contents) ∧
      contents.takeWhile (· ≠ Source.lineFeed) = Utf8.encode line) ∧
    ¬ (Text.ClosedComment line ↔
      ∀ argument ∈ argv, '\n' ∉ Utf8.decodeLossy argument ∧ ¬ "*/".toList <:+: Utf8.decodeLossy argument) := by
  intro path argv disk line
  have opened : "/*".toList <+: "/* automatically generated via `".toList ++ "*/".toList := by decide
  have closed : Text.ClosedComment line := (Text.closedComment_iff opened).2 (by decide)
  refine ⟨⟨path "/* automatically generated via `*/\n in out' */\nint a;\n", by decide +kernel, by decide +kernel⟩, ?_⟩
  intro same
  exact absurd (same.1 closed) (by decide +kernel)

end PlainHeader
