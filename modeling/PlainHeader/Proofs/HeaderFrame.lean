import PlainHeader.HeaderFile
import PlainHeader.Proofs.Resolution
import PlainHeader.Rules.Epax
import Mathlib.Data.List.Infix

/-!
# What making a header leaves alone

Making a header writes to one file at most: the one that the path of the output leads to, which
may be new. Every other entry stays what it is, no entry is removed, and a directory tree stays
one. A fault that is met before the output has been opened leaves the disk as it was. The faults
of work that has begun are told apart from those by what was being done (`Labels.Blames`).
-/

namespace PlainHeader

/-! ## Faults of work that has begun -/

/-- A fault of reading the input or of writing the output. -/
inductive Labels.Blames (labels : Labels) : Fault → Prop
  | reading (cause : Cause) : labels.Blames (labels.unreadable cause)
  | writing (cause : Cause) : labels.Blames (labels.unwritable cause)

section
variable {rules : Rules} {labels : Labels} {fault : Fault}

theorem transcribeFrom_blames {σ : Type} [Outlet σ] {count : Nat} {out : σ} {readings : List Reading}
    (ended : (transcribeFrom rules labels count out readings).2 = .error fault) : labels.Blames fault := by
  induction readings generalizing count out with
  | nil => cases ended
  | cons reading rest ih =>
    cases reading with
    | error cause =>
      obtain rfl := Except.error.inj ended
      exact .reading cause
    | ok line =>
      rw [transcribeFrom] at ended
      rcases written : writeLine rules out line with ⟨next, _ | cause⟩
      · rw [written] at ended
        exact ih ended
      · rw [written] at ended
        obtain rfl := Except.error.inj ended
        exact .writing cause

theorem Overwriting.transcribeFrom_blames {seen count : Nat} {out : Buffered}
    (ended : (Overwriting.transcribeFrom rules labels seen count out).2 = .error fault) : labels.Blames fault := by
  fun_induction Overwriting.transcribeFrom rules labels seen count out with
  | case1 => cases ended
  | case2 =>
    obtain rfl := Except.error.inj ended
    exact .writing _
  | case3 =>
    obtain rfl := Except.error.inj ended
    exact .reading _
  | case4 =>
    obtain rfl := Except.error.inj ended
    exact .writing _
  | case5 seen count out unread room line read next written ih => exact ih ended

theorem headerBody_blames {location : Location} {source : Source} {target : Target} {out : Buffered}
    (ended : (headerBody rules labels location source target out).2 = .error fault) : labels.Blames fault := by
  unfold headerBody at ended
  split at ended
  · exact Overwriting.transcribeFrom_blames ended
  · exact transcribeFrom_blames ended

theorem writeHeader_blames {banner : Text} {body : Buffered → Buffered × Except Fault Nat} {sink : Sink}
    (blamed : ∀ out fault, (body out).2 = .error fault → labels.Blames fault)
    (ended : (writeHeader labels banner body sink).2 = .error fault) : labels.Blames fault := by
  unfold writeHeader at ended
  rcases headed : Outlet.writeAll ({ sink } : Buffered) (linePieces [banner]) with ⟨out, _ | cause⟩
  · rcases worked : body out with ⟨after, failure | count⟩
    · simp only [headed, worked] at ended
      obtain rfl := Except.error.inj ended
      exact blamed out failure (by rw [worked])
    · rcases released : after.release with ⟨closed, _ | cause⟩
      · simp only [headed, worked, released] at ended
        cases ended
      · simp only [headed, worked, released] at ended
        obtain rfl := Except.error.inj ended
        exact .writing cause
  · simp only [headed] at ended
    obtain rfl := Except.error.inj ended
    exact .writing cause

end

/-- A fault that is met before the output is open. -/
inductive Fault.Early : Fault → Prop
  | noSuchInput (path : Bytes) : Early (.noSuchInput path)
  /-- The input is a file that cannot be opened. -/
  | unopened {activity : Text} (opening : "cannot open ".toList <+: activity) (cause : Cause) :
    Early (.failed activity cause)
  | uncreated {activity : Text} (creating : "cannot create ".toList <+: activity) (cause : Cause) :
    Early (.failed activity cause)

/-- Faults of work that has begun are worded in other ways than the earlier ones. -/
theorem Labels.Blames.not_early {labels : Labels} {fault : Fault} (blames : labels.Blames fault) : ¬ fault.Early := by
  intro early
  cases blames with
  | reading cause =>
    cases early with
    | unopened opening => simp at opening
    | uncreated creating => simp at creating
  | writing cause =>
    cases early with
    | unopened opening => simp at opening
    | uncreated creating => simp at creating

/-! ## The ways in which making a header goes -/

namespace Disk

variable {disk : Disk} {rules : Rules} {input output : Bytes} {banner : Text} {file : Location × Bytes}
  {target : Target}

theorem headerAt_blames {fault : Fault} (ended : (headerAt rules input output banner file target).2 = .error fault) :
    (Labels.ofPaths input output).Blames fault :=
  writeHeader_blames (fun _ _ => headerBody_blames) ended

/-- Making a header stops early and leaves the disk as it is, or it writes to a target. -/
theorem makeHeader_cases (disk : Disk) (rules : Rules) (input output : Bytes) (banner : Text) :
    (∃ fault, fault.Early ∧ disk.makeHeader rules input output banner = (disk, .error fault)) ∨
    ∃ file target, disk.file? input = some file ∧ disk.refusal .reading file.1 = none ∧
      disk.target output = .ok target ∧ disk.makeHeader rules input output banner =
        (disk.fill (headerAt rules input output banner file target).1.bytes target,
          (headerAt rules input output banner file target).2) := by
  cases found : disk.file? input with
  | none => exact .inl ⟨_, .noSuchInput input, makeHeader_of_missing found⟩
  | some file =>
    cases readable : disk.refusal .reading file.1 with
    | some error => exact .inl ⟨_, .unopened (List.prefix_append _ _) _, makeHeader_of_unopened found readable⟩
    | none =>
      cases opened : disk.target output with
      | error error =>
        exact .inl ⟨_, .uncreated (List.prefix_append _ _) _, makeHeader_of_uncreated found readable opened⟩
      | ok target => exact .inr ⟨file, target, rfl, readable, rfl, makeHeader_of_opened found readable opened⟩

/-! ## What is written and what stays -/

theorem node?_eq_none_iff {location : Location} (inner : location ≠ []) :
    disk.node? location = none ↔ location ∉ disk.locations := by
  simp only [node?, if_neg inner, List.lookup_eq_none_iff, locations, List.mem_map, not_exists, not_and, bne_iff_ne]
  exact ⟨fun absent entry member same => absent entry member same.symm,
    fun absent entry member same => absent entry member same.symm⟩

theorem mem_locations {location : Location} {node : Node} (inner : location ≠ [])
    (stands : disk.node? location = some node) : location ∈ disk.locations := by
  apply Decidable.byContradiction
  intro absent
  rw [(node?_eq_none_iff inner).2 absent] at stands
  cases stands

/-- A node put at a free location is listed last, and one that replaces another is listed in
    its place. -/
theorem locations_put (disk : Disk) (location : Location) (node : Node) :
    (disk.put location node).locations =
      if location ∈ disk.locations then disk.locations else disk.locations ++ [location] := by
  unfold put locations
  simp only
  induction disk.nodes with
  | nil => rfl
  | cons entry rest ih =>
    by_cases same : entry.1 = location
    · simp [putIn, same]
    · have other : location ≠ entry.1 := Ne.symm same
      simp only [putIn, if_neg same, List.map_cons, ih, List.mem_cons, other, false_or]
      split_ifs <;> rfl

/-- Two disks with the same entries, but for a file where something was written: it may be new
    or have other contents. -/
structure SameBut (written : Location → Prop) (before after : Disk) : Prop where
  home : after.home = before.home
  /-- What could be opened can be opened, and nothing else. -/
  refusal : after.refusal = before.refusal
  /-- Where nothing was written, everything is what it was. -/
  elsewhere : ∀ location, ¬ written location → after.node? location = before.node? location
  /-- Nothing is gone: what is not what it was is a file with other contents. -/
  kept : ∀ location node, before.node? location = some node →
    after.node? location = some node ∨ ∃ old new, node = .file old ∧ after.node? location = some (.file new)
  /-- At most one entry is new, and it is a file. -/
  listed : after.locations = before.locations ∨ ∃ location data, before.node? location = none ∧
    after.node? location = some (.file data) ∧ after.locations = before.locations ++ [location]

theorem SameBut.refl (written : Location → Prop) (disk : Disk) : disk.SameBut written disk where
  home := rfl
  refusal := rfl
  elsewhere _ _ := rfl
  kept _ _ stands := .inl stands
  listed := .inl rfl

/-- A file put where nothing stands but a file changes nothing else. -/
theorem Final.sameBut_put {location : Location} (final : disk.Final location) (data : Bytes) :
    disk.SameBut (· = location) (disk.put location (.file data)) where
  home := rfl
  refusal := rfl
  elsewhere there apart := by rw [node?_put final.ne_root, if_neg apart]
  kept there node stood := by
    by_cases same : there = location
    · subst same
      have filled : (disk.put there (.file data)).node? there = some (.file data) := by
        rw [node?_put final.ne_root, if_pos rfl]
      rcases final.free_or_file with vacant | ⟨old, stands⟩
      · rw [vacant] at stood
        cases stood
      · obtain rfl : .file old = node := Option.some.inj (stands.symm.trans stood)
        exact .inr ⟨old, data, rfl, filled⟩
    · rw [node?_put final.ne_root, if_neg same]
      exact .inl stood
  listed := by
    rw [locations_put]
    split_ifs with member
    · exact .inl rfl
    · refine .inr ⟨location, data, (node?_eq_none_iff final.ne_root).2 member, ?_, rfl⟩
      rw [node?_put final.ne_root, if_pos rfl]

theorem sameBut_fill (opened : disk.target output = .ok target) (data : Bytes) :
    disk.SameBut (fun location => disk.target output = .ok (.file location)) (disk.fill data target) := by
  cases target with
  | device device => exact SameBut.refl _ disk
  | file location =>
    have filled := (final_of_target opened).sameBut_put data
    refine { filled with elsewhere := fun there untouched => filled.elsewhere there ?_ }
    rintro rfl
    exact untouched opened

/-- Whatever ends the work, at most the file that the path of the output leads to is written. -/
theorem sameBut_makeHeader (disk : Disk) (rules : Rules) (input output : Bytes) (banner : Text) :
    disk.SameBut (fun location => disk.target output = .ok (.file location))
      (disk.makeHeader rules input output banner).1 := by
  rcases disk.makeHeader_cases rules input output banner with ⟨fault, -, made⟩ | ⟨file, target, -, -, opened, made⟩
  · rw [made]
    exact SameBut.refl _ disk
  · rw [made]
    exact sameBut_fill opened _

theorem makeHeader_of_early {fault : Fault} (ended : (disk.makeHeader rules input output banner).2 = .error fault)
    (early : fault.Early) : (disk.makeHeader rules input output banner).1 = disk := by
  rcases disk.makeHeader_cases rules input output banner with ⟨_, -, made⟩ | ⟨file, target, -, -, -, made⟩
  · rw [made]
  · rw [made] at ended
    exact absurd early (headerAt_blames ended).not_early

/-- The input is reported missing exactly when its path leads to no file. -/
theorem makeHeader_noSuchInput_iff {path : Bytes} :
    (disk.makeHeader rules input output banner).2 = .error (.noSuchInput path) ↔
      path = input ∧ disk.file? input = none := by
  cases found : disk.file? input with
  | none =>
    rw [makeHeader_of_missing found]
    simp [eq_comm]
  | some file =>
    refine iff_of_false ?_ (by simp)
    cases readable : disk.refusal .reading file.1 with
    | some error =>
      rw [makeHeader_of_unopened found readable]
      nofun
    | none =>
      cases opened : disk.target output with
      | error error =>
        rw [makeHeader_of_uncreated found readable opened]
        nofun
      | ok target =>
        rw [makeHeader_of_opened found readable opened]
        exact fun ended => (headerAt_blames ended).not_early (.noSuchInput path)

theorem file?_of_locate {path data : Bytes} {location : Location}
    (located : disk.locate .reading path = .ok (.taken location (.file data))) :
    disk.file? path = some (location, data) := by
  simp [file?, located]

theorem file?_eq_none_iff {path : Bytes} :
    disk.file? path = none ↔ ¬ ∃ location data, disk.locate .reading path = .ok (.taken location (.file data)) := by
  unfold file?
  split
  · next location data located => simp [located]
  · next other =>
    refine iff_of_true rfl ?_
    rintro ⟨location, data, located⟩
    exact other location data located

/-! ## Trees stay trees -/

/-- A tree of directories: relative paths start in a directory, every entry stands in a directory,
    and no place is listed twice. -/
structure Tree (disk : Disk) : Prop where
  home : disk.node? disk.home = some .directory
  above : ∀ location ∈ disk.locations, location ≠ [] ∧ disk.node? location.tail = some .directory
  distinct : disk.locations.Nodup

theorem Tree.in_directory {location : Location} {node : Node} (tree : disk.Tree) (inner : location ≠ [])
    (stands : disk.node? location = some node) : disk.node? location.tail = some .directory :=
  (tree.above location (mem_locations inner stands)).2

theorem Tree.free_in_directory {purpose : Purpose} {path : Bytes} {location : Location} (tree : disk.Tree)
    (located : disk.locate purpose path = .ok (.free location)) :
    location ≠ [] ∧ disk.node? location.tail = some .directory := by
  have along : disk.Along (fun here => disk.node? here = some .directory)
      fun spot => ∀ location, spot = .free location → location ≠ [] ∧ disk.node? location.tail = some .directory :=
    { root := rfl
      up := by
        rintro (_ | ⟨name, here⟩) passed
        · rfl
        · exact tree.in_directory (List.cons_ne_nil name here) passed
      down := fun _ _ _ stands => stands
      stop := nofun
      free := by
        rintro here name passed - location ⟨⟩
        exact ⟨List.cons_ne_nil name here, passed⟩
      taken := nofun }
  exact along.locate tree.home located location rfl

/-- A file that a path can be written to as is in a directory, if it is there at all. -/
theorem Tree.target_in_directory {location : Location} (tree : disk.Tree)
    (opened : disk.target output = .ok (.file location)) :
    location ≠ [] ∧ disk.node? location.tail = some .directory := by
  obtain ⟨spot, located, filed, final, -⟩ := exists_spot_of_target opened
  cases spot with
  | free there =>
    obtain rfl : there = location := Option.some.inj filed
    exact tree.free_in_directory located
  | taken there node =>
    cases node with
    | file old =>
      obtain rfl : there = location := Option.some.inj filed
      obtain ⟨stands, -⟩ := found_locate located nofun
      exact tree.above there (mem_locations final.ne_root stands)
    | directory => cases filed
    | link => cases filed
    | device => cases filed

theorem Tree.fill (tree : disk.Tree) (opened : disk.target output = .ok target) (data : Bytes) :
    (disk.fill data target).Tree := by
  cases target with
  | device device => exact tree
  | file location =>
    have final := final_of_target opened
    obtain ⟨-, housed⟩ := tree.target_in_directory opened
    have kept {there : Location} (stands : disk.node? there = some .directory) :
        (disk.put location (.file data)).node? there = some .directory := by
      have apart : there ≠ location := by
        rintro rfl
        exact final.undirected stands
      rw [node?_put final.ne_root, if_neg apart, stands]
    refine ⟨kept tree.home, ?_, ?_⟩
    · intro there listed
      rw [Disk.fill, locations_put] at listed
      split_ifs at listed with old
      · exact ⟨(tree.above there listed).1, kept (tree.above there listed).2⟩
      · rcases List.mem_append.1 listed with listed | new
        · exact ⟨(tree.above there listed).1, kept (tree.above there listed).2⟩
        · obtain rfl := List.mem_singleton.1 new
          exact ⟨final.ne_root, kept housed⟩
    · rw [Disk.fill, locations_put]
      split_ifs with old
      · exact tree.distinct
      · refine List.nodup_append.2 ⟨tree.distinct, by simp, ?_⟩
        rintro there listed new only rfl
        exact old (List.mem_singleton.1 only ▸ listed)

theorem Tree.makeHeader (tree : disk.Tree) (rules : Rules) (input output : Bytes) (banner : Text) :
    (disk.makeHeader rules input output banner).1.Tree := by
  rcases disk.makeHeader_cases rules input output banner with ⟨fault, -, made⟩ | ⟨file, target, -, -, opened, made⟩
  · rw [made]
    exact tree
  · rw [made]
    exact tree.fill opened _

/-- What making a header does to a disk, for every disk, table, banner and pair of paths, and
    however it ends. At most the file that the path of the output leads to is made or rewritten,
    and everything else is what it was. The input is missing exactly when its path leads to no
    file, whatever the output is. A file that cannot be opened is reported next, whatever the
    output is, and only then an output that cannot be created. A fault that is met before the
    output is open leaves the disk as it was. A directory tree stays one. -/
theorem makeHeader_frame (disk : Disk) (rules : Rules) (input output : Bytes) (banner : Text) :
    let made := disk.makeHeader rules input output banner
    disk.SameBut (fun location => disk.target output = .ok (.file location)) made.1 ∧
    (∀ path, made.2 = .error (.noSuchInput path) ↔
      path = input ∧ ¬ ∃ location data, disk.locate .reading input = .ok (.taken location (.file data))) ∧
    (∀ location data, disk.locate .reading input = .ok (.taken location (.file data)) →
      (∀ error, disk.refusal .reading location = some error →
        made = (disk, .error (.failed ("cannot open ".toList ++ Utf8.decodeLossy input) (.system error)))) ∧
      (∀ error, disk.refusal .reading location = none → disk.target output = .error error →
        made = (disk, .error (.failed ("cannot create ".toList ++ Utf8.decodeLossy output) (.system error))))) ∧
    (∀ fault, made.2 = .error fault → fault.Early → made.1 = disk) ∧
    (disk.Tree → made.1.Tree) := by
  intro made
  refine ⟨disk.sameBut_makeHeader rules input output banner, fun path => ?_, ?_, ?_, ?_⟩
  · rw [← file?_eq_none_iff]
    exact makeHeader_noSuchInput_iff
  · intro location data located
    have found := file?_of_locate located
    exact ⟨fun error refused => makeHeader_of_unopened found refused,
      fun error readable refused => makeHeader_of_uncreated found readable refused⟩
  · intro fault ended early
    exact makeHeader_of_early ended early
  · intro tree
    exact tree.makeHeader rules input output banner

/-- On one tree: a header made through a link to a free name in another directory, an input that
    is only a link to itself, an input that may not be opened while the output may, an output that
    is a directory, and one that may not be opened. -/
theorem makeHeader_frame_tree :
    let path (name : String) : Bytes := Utf8.encode name.toList
    let disk : Disk :=
      { nodes :=
          [([path "in"], .file (path "int a;\n")), ([path "sub"], .directory),
            ([path "old", path "sub"], .file (path "old")), ([path "own"], .file (path "int b;\n")),
            ([path "out"], .link (path "sub/new")), ([path "loop"], .link (path "loop"))]
        refusal := fun _ location => if location = [path "own"] then some .permissionDenied else none }
    let banner := "// made".toList
    let made (input output : String) := disk.makeHeader Rules.epax (path input) (path output) banner
    (disk.Tree ∧ (made "in" "out").1.Tree ∧
      (∀ location, location ≠ [path "new", path "sub"] → (made "in" "out").1.node? location = disk.node? location) ∧
      (made "in" "out").1.locations = disk.locations ++ [[path "new", path "sub"]]) ∧
    ((made "loop" "sub/old").2 = .error (.noSuchInput (path "loop")) ∧ (made "loop" "sub/old").1 = disk) ∧
    (disk.target (path "sub/old") = .ok (.file [path "old", path "sub"]) ∧
      (made "own" "sub/old").2 = .error (.failed "cannot open own".toList (.system .permissionDenied)) ∧
      (made "own" "sub/old").1 = disk) ∧
    ((made "in" "sub").2 = .error (.failed "cannot create sub".toList (.system .isDirectory)) ∧
      (made "in" "sub").1 = disk) ∧
    ((made "in" "own").2 = .error (.failed "cannot create own".toList (.system .permissionDenied)) ∧
      (made "in" "own").1 = disk) := by
  intro path disk banner made
  have tree : disk.Tree := ⟨by decide +kernel, by decide +kernel, by decide +kernel⟩
  have out : disk.target (path "out") = .ok (.file [path "new", path "sub"]) := by decide +kernel
  have looping : ¬ ∃ location data, disk.locate .reading (path "loop") = .ok (.taken location (.file data)) := by
    rw [← file?_eq_none_iff]
    decide +kernel
  have unopened : (made "own" "sub/old").2 = .error (.failed "cannot open own".toList (.system .permissionDenied)) := by
    decide +kernel
  have directory : (made "in" "sub").2 = .error (.failed "cannot create sub".toList (.system .isDirectory)) := by
    decide +kernel
  have denied : (made "in" "own").2 = .error (.failed "cannot create own".toList (.system .permissionDenied)) := by
    decide +kernel
  obtain ⟨changed, -, -, -, planted⟩ := makeHeader_frame disk Rules.epax (path "in") (path "out") banner
  obtain ⟨-, missing, -, unmade, -⟩ := makeHeader_frame disk Rules.epax (path "loop") (path "sub/old") banner
  obtain ⟨-, -, -, unread, -⟩ := makeHeader_frame disk Rules.epax (path "own") (path "sub/old") banner
  have lost := (missing (path "loop")).2 ⟨rfl, looping⟩
  have uncreated (output : String) := (makeHeader_frame disk Rules.epax (path "in") (path output) banner).2.2.2.1
  refine ⟨⟨tree, planted tree, fun location apart => changed.elsewhere location ?_, by decide +kernel⟩,
    ⟨lost, unmade _ lost (.noSuchInput _)⟩,
    ⟨by decide +kernel, unopened, unread _ unopened (.unopened (by decide +kernel) _)⟩,
    ⟨directory, uncreated "sub" _ directory (.uncreated (by decide +kernel) _)⟩,
    denied, uncreated "own" _ denied (.uncreated (by decide +kernel) _)⟩
  rw [out]
  rintro ⟨⟩
  exact apart rfl

end Disk

end PlainHeader
