import PlainHeader.Proofs.HeaderContents
import PlainHeader.Proofs.HeaderFrame
import PlainHeader.Proofs.Speech

/-!
# Running again

A header that has been made is made again from the same input and in the same place: the paths
lead where they led, the input apart from the output is as it was, and an output that is its own
input never depended on what it held. So a second run on what a first one has left changes
nothing and says the same, whatever became of the first.
-/

namespace PlainHeader

namespace Disk

variable {disk : Disk} {rules : Rules} {input output : Bytes} {banner : Text} {location : Location} {data : Bytes}
  {target : Target}

/-- A target that has been filled, device or file, is led to by the same path. -/
theorem target_fill_target (opened : disk.target output = .ok target) (written : Bytes) :
    (disk.fill written target).target output = .ok target := by
  cases target with
  | file there => exact target_fill opened written
  | device device => exact opened

/-- Behind a header that has been written the input is at the same place, and what is written
    from it there is the same. -/
theorem headerAt_again (found : disk.file? input = some (location, data)) (opened : disk.target output = .ok target)
    (rules : Rules) (banner : Text) (written : Bytes) :
    ∃ data', (disk.fill written target).file? input = some (location, data') ∧
      headerAt rules input output banner (location, data') target =
        headerAt rules input output banner (location, data) target := by
  cases target with
  | device device => exact ⟨data, found, rfl⟩
  | file there =>
    by_cases same : there = location
    · subst same
      refine ⟨written, file?_put found written, ?_⟩
      -- the body reads the file as it grows, not as it was
      simp only [headerAt, headerBody_same]
    · exact ⟨data, file?_put_elsewhere found (final_of_target opened) same written, rfl⟩

/-- Making a header on what making it has left does the same once more. -/
theorem makeHeader_again (disk : Disk) (rules : Rules) (input output : Bytes) (banner : Text) :
    (disk.makeHeader rules input output banner).1.makeHeader rules input output banner =
      disk.makeHeader rules input output banner := by
  rcases disk.makeHeader_cases rules input output banner with
    ⟨fault, -, made⟩ | ⟨⟨location, data⟩, target, found, readable, opened, made⟩
  · rw [made, made]
  · rw [made]
    let written := (headerAt rules input output banner (location, data) target).1.bytes
    obtain ⟨data', found', same⟩ := headerAt_again found opened rules banner written
    have readable' : (disk.fill written target).refusal .reading location = none := by
      rw [refusal_fill]
      exact readable
    rw [makeHeader_of_opened found' readable' (target_fill_target opened _), same, fill_fill]

end Disk

theorem work_again (argv : List Bytes) (disk : Disk) : work argv (work argv disk).1 = work argv disk := by
  unfold work
  cases Request.ofArguments argv.tail with
  | help => rfl
  | version => rfl
  | invalid => rfl
  | convert input output => exact disk.makeHeader_again _ _ _ _

/-- A run on the disk that the same run has left leaves it as it is and ends in the same way: with
    the same result, and with the same said on both streams. This holds for every command line,
    disk and console, and whatever became of the first run. -/
theorem run_again (argv : List Bytes) (disk : Disk) (console : Console) :
    let first := run argv disk console
    let second := run argv first.disk console
    second.disk = first.disk ∧ second.result = first.result ∧ exitCode second.result = exitCode first.result ∧
      second.console.stdout = first.console.stdout ∧ second.console.stderr = first.console.stderr := by
  intro first second
  have left : first.disk = (work argv disk).1 := congrArg Outcome.disk (run_eq argv disk console)
  have same : second = first := by
    have spoken : second = { disk := _, console := _, result := _ } := run_eq argv first.disk console
    rw [spoken, left, work_again]
    exact (run_eq argv disk console).symm
  rw [same]
  exact ⟨rfl, rfl, rfl, rfl, rfl⟩

end PlainHeader
