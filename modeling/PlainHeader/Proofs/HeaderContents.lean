import PlainHeader.Proofs.Buffering
import PlainHeader.Proofs.Resolution
import PlainHeader.Proofs.TextLines
import PlainHeader.Rules.Epax

/-!
# What a header file holds

Making a header replaces the output as a whole, whatever it held before. An output apart from
the input gets the banner line and what the legible lines become, also when a line stops the
reader. An output that is the input, by whatever path, has been emptied before the first line
is read: it is left with the banner line alone.
-/

namespace PlainHeader.Disk

variable {disk : Disk} {input output data : Bytes} {location there : Location}

theorem headerBody_apart (apart : there ≠ location) (rules : Rules) (labels : Labels) :
    headerBody rules labels location { data } (.file there) = transcribe rules labels { data } :=
  funext fun _ => if_neg fun same => apart (Target.file.inj same)

theorem headerBody_same (rules : Rules) (labels : Labels) :
    headerBody rules labels location { data } (.file location) = Overwriting.transcribe rules labels :=
  funext fun _ => if_pos rfl

/-- A header apart from its source holds the banner line and what the legible lines become. -/
theorem makeHeader_apart (found : disk.file? input = some (location, data))
    (readable : disk.refusal .reading location = none) (opened : disk.target output = .ok (.file there))
    (apart : there ≠ location) (rules : Rules) (banner : Text) :
    ∃ after, after.file? output =
        some (there, bannerLine banner ++ rules.rendering (Source.legible { data })) ∧
      disk.makeHeader rules input output banner =
        (after, match Source.obstacle { data } with
          | some cause => .error (.failed ("cannot read ".toList ++ Utf8.decodeLossy input) cause)
          | none => .ok ()) := by
  obtain ⟨sink, bytes, written⟩ := writeHeader_transcribe rules (.ofPaths input output) banner { data }
  refine ⟨disk.fill sink.bytes (.file there), ?_, ?_⟩
  · rw [file?_fill opened, bytes]
  · rw [makeHeader_of_opened found readable opened, headerAt]
    simp only [headerBody_apart apart, Target.sink, written]
    rfl

/-- A header over its own source is the banner line, which is all that the source holds then. -/
theorem makeHeader_same (found : disk.file? input = some (location, data))
    (readable : disk.refusal .reading location = none) (opened : disk.target output = .ok (.file location))
    (rules : Rules) {banner : Text}
    (fits : (bannerLine banner).length < Buffered.capacity) :
    ∃ after, after.file? output = some (location, bannerLine banner) ∧
      after.file? input = some (location, bannerLine banner) ∧
      disk.makeHeader rules input output banner = (after, .ok ()) := by
  obtain ⟨sink, bytes, written⟩ := writeHeader_overwriting fits rules (.ofPaths input output)
  refine ⟨disk.fill sink.bytes (.file location), ?_, ?_, ?_⟩
  · rw [file?_fill opened, bytes]
  · rw [fill, file?_put found, bytes]
  · rw [makeHeader_of_opened found readable opened, headerAt]
    simp only [headerBody_same, Target.sink, written]

theorem message_notUtf8 (activity : Text) :
    (Fault.failed activity .notUtf8).message = activity ++ ": stream did not contain valid UTF-8".toList := by
  have spelled : (Fault.failed activity .notUtf8).message = activity ++ ": ".toList ++ Cause.notUtf8.message := rfl
  have joined : ": ".toList ++ Cause.notUtf8.message = ": stream did not contain valid UTF-8".toList := rfl
  rw [spelled, List.append_assoc, joined]

/-- What making a header leaves behind, for every disk, table and banner, once its input has been
    opened. Apart from the input, a text becomes the banner line and the rendering of its lines,
    and an input that is no text is reported and rendered up to its first line that is not UTF-8.
    Over the input, the banner line is left if it is shorter than the buffer. -/
theorem makeHeader_contents (found : disk.file? input = some (location, data))
    (readable : disk.refusal .reading location = none) (opened : disk.target output = .ok (.file there))
    (rules : Rules) (banner : Text) :
    let made := disk.makeHeader rules input output banner
    let lines := Source.lines { data }
    let fault : Fault := .failed ("cannot read ".toList ++ Utf8.decodeLossy input) .notUtf8
    (there ≠ location → ∀ text, data = Utf8.encode text →
      made.2 = .ok () ∧
      made.1.file? output = some (there, bannerLine banner ++ rules.rendering (Text.lines text))) ∧
    (there ≠ location → (∃ line ∈ lines, ¬ Utf8.Valid line) →
      made.2 = .error fault ∧
      fault.message =
        "cannot read ".toList ++ Utf8.decodeLossy input ++ ": stream did not contain valid UTF-8".toList ∧
      ∃ texts bad rest, lines = texts.map Utf8.encode ++ bad :: rest ∧ ¬ Utf8.Valid bad ∧
        made.1.file? output = some (there, bannerLine banner ++ rules.rendering texts)) ∧
    (there = location → (bannerLine banner).length < Buffered.capacity →
      made.2 = .ok () ∧ made.1.file? output = some (location, bannerLine banner) ∧
        made.1.file? input = some (location, bannerLine banner)) := by
  intro made lines fault
  refine ⟨?_, ?_, ?_⟩
  · rintro apart text rfl
    obtain ⟨after, contents, ended⟩ := makeHeader_apart found readable opened apart rules banner
    rw [Source.obstacle_encode] at ended
    have made_eq : made = (after, .ok ()) := ended
    rw [Source.legible_encode] at contents
    rw [made_eq]
    exact ⟨rfl, contents⟩
  · intro apart broken
    obtain ⟨after, contents, ended⟩ := makeHeader_apart found readable opened apart rules banner
    have stopped : Source.obstacle { data } = some .notUtf8 := if_neg (by simpa using broken)
    rw [stopped] at ended
    have made_eq : made = (after, .error fault) := ended
    obtain ⟨bad, rest, invalid, split⟩ := Source.exists_legible_front broken
    rw [made_eq]
    exact ⟨rfl, message_notUtf8 _, _, bad, rest, split, invalid, contents⟩
  · rintro rfl fits
    obtain ⟨after, contents, same, ended⟩ := makeHeader_same found readable opened rules fits
    have made_eq : made = (after, .ok ()) := ended
    rw [made_eq]
    exact ⟨rfl, contents, same⟩

/-- One header through a link to a name that is free, one from an input whose second line is
    not UTF-8, and one over its own input through a link. -/
theorem makeHeader_contents_links :
    let path (name : String) : Bytes := Utf8.encode name.toList
    let broken : Bytes := path "int a;\nint " ++ 0xFF :: path "\nint c;\n"
    let disk : Disk := { nodes :=
      [([path "in"], .file (path "int a;\n")), ([path "broken"], .file broken), ([path "old"], .file (path "old")),
        ([path "out"], .link (path "new")), ([path "self"], .link (path "in"))] }
    let banner := "// made".toList
    let made (input output : String) := disk.makeHeader Rules.epax (path input) (path output) banner
    ((made "in" "out").2 = .ok () ∧
      (made "in" "out").1.file? (path "out") = some ([path "new"], path "// made\nint a;\n")) ∧
    ((made "broken" "old").2 = .error (.failed ("cannot read ".toList ++ Utf8.decodeLossy (path "broken")) .notUtf8) ∧
      ∃ texts bad rest, Source.lines { data := broken } = texts.map Utf8.encode ++ bad :: rest ∧ ¬ Utf8.Valid bad ∧
        (made "broken" "old").1.file? (path "old") =
          some ([path "old"], path "// made\n" ++ Rules.epax.rendering texts)) ∧
    ((made "in" "self").2 = .ok () ∧
      (made "in" "self").1.file? (path "in") = some ([path "in"], path "// made\n")) := by
  intro path broken disk banner made
  have whole : disk.file? (path "in") = some ([path "in"], path "int a;\n") := by decide +kernel
  have part : disk.file? (path "broken") = some ([path "broken"], broken) := by decide +kernel
  have out : disk.target (path "out") = .ok (.file [path "new"]) := by decide +kernel
  have old : disk.target (path "old") = .ok (.file [path "old"]) := by decide +kernel
  have self : disk.target (path "self") = .ok (.file [path "in"]) := by decide +kernel
  have headed : bannerLine banner = path "// made\n" := by decide +kernel
  have rendered : bannerLine banner ++ Rules.epax.rendering (Text.lines "int a;\n".toList) = path "// made\nint a;\n" := by
    decide +kernel
  have illegible : ∃ line ∈ Source.lines { data := broken }, ¬ Utf8.Valid line := by decide +kernel
  refine ⟨?_, ?_, ?_⟩
  · rw [← rendered]
    exact (makeHeader_contents whole rfl out Rules.epax banner).1 (by decide +kernel) _ rfl
  · rw [← headed]
    obtain ⟨failed, -, kept⟩ := (makeHeader_contents part rfl old Rules.epax banner).2.1 (by decide +kernel) illegible
    exact ⟨failed, kept⟩
  · rw [← headed]
    obtain ⟨done, -, same⟩ := (makeHeader_contents whole rfl self Rules.epax banner).2.2 rfl (by decide +kernel)
    exact ⟨done, same⟩

end PlainHeader.Disk
