import PlainHeader.Disk.Access
import Mathlib.Tactic.SplitIfs

/-!
# What a path leads to

A walk that ends at a file or at a free name has looked that location up last, and has met
nothing but directories and links before. Putting a file there changes none of these, so the
same path leads to the new file afterwards, whatever was read or written through it before,
and every path that led elsewhere leads there still.
-/

namespace PlainHeader

/-- The location of a file that is there or can be made there. -/
def Spot.file? : Spot → Option Location
  | .taken location (.file _) => some location
  | .free location => some location
  | .taken _ _ => none

/-- What a spot is once a file has been put at a location. -/
def Spot.filled (location : Location) (data : Bytes) (spot : Spot) : Spot :=
  if spot.file? = some location then .taken location (.file data) else spot

theorem Spot.filled_of_file? {spot : Spot} {location : Location} (filed : spot.file? = some location) (data : Bytes) :
    spot.filled location data = .taken location (.file data) := if_pos filed

theorem Spot.filled_elsewhere {spot : Spot} {location : Location} (apart : spot.file? ≠ some location) (data : Bytes) :
    spot.filled location data = spot := if_neg apart

namespace Disk

/-- What can stand where a name leads, on the way to a spot. -/
inductive Arrival (disk : Disk) (purpose : Purpose) (follow : Location → Bytes → List Step → Walk) (here : Location)
    (rest : List Step) (spot : Spot) (location : Location) : Prop
  | free (stands : disk.node? location = none) (last : rest = []) (found : spot = .free location)
  | directory (stands : disk.node? location = some .directory)
      (onward : disk.walkSteps purpose follow location rest = .ok spot)
  | link {target : Bytes} (stands : disk.node? location = some (.link target))
      (onward : follow here target rest = .ok spot)
  | taken {node : Node} (stands : disk.node? location = some node) (proper : node ≠ .directory)
      (unlinked : ∀ target, node ≠ .link target) (last : rest = []) (found : spot = .taken location node)

variable {disk : Disk} {purpose : Purpose} {location here : Location} {spot : Spot} {name : Bytes} {rest : List Step}
  {follow : Location → Bytes → List Step → Walk}

/-- A walk goes on at a name exactly when the name can be looked up and something stands there
    from which the rest leads to the spot. -/
theorem walkSteps_name_iff :
    disk.walkSteps purpose follow here (.name name :: rest) = .ok spot ↔
      ¬ (purpose = .writing ∧ rest = [.slash]) ∧ name.length ≤ longestName ∧
        Arrival disk purpose follow here rest spot (name :: here) := by
  rw [walkSteps]
  by_cases refused : purpose = .writing ∧ rest = [.slash]
  · rw [if_pos refused]
    exact iff_of_false nofun fun arrived => arrived.1 refused
  rw [if_neg refused]
  by_cases long : longestName < name.length
  · rw [if_pos long]
    exact iff_of_false nofun fun arrived => Nat.not_le_of_gt long arrived.2.1
  rw [if_neg long]
  constructor
  · intro walked
    refine ⟨refused, Nat.le_of_not_lt long, ?_⟩
    cases stands : disk.node? (name :: here) with
    | none =>
      simp only [stands] at walked
      split_ifs at walked with last
      exact .free stands last (Except.ok.inj walked).symm
    | some node =>
      simp only [stands] at walked
      cases node with
      | directory => exact .directory stands walked
      | link target => exact .link stands walked
      | file data =>
        simp only at walked
        split_ifs at walked with last
        exact .taken stands nofun nofun last (Except.ok.inj walked).symm
      | device device =>
        simp only at walked
        split_ifs at walked with last
        exact .taken stands nofun nofun last (Except.ok.inj walked).symm
  · rintro ⟨-, -, arrived⟩
    cases arrived with
    | free stands last found => simp only [stands, last, found, if_true]
    | directory stands onward => simp only [stands, onward]
    | link stands onward => simp only [stands, onward]
    | @taken node stands proper unlinked last found =>
      cases node with
      | directory => exact absurd rfl proper
      | link target => exact absurd rfl (unlinked target)
      | file data => simp only [stands, last, found, if_true]
      | device device => simp only [stands, last, found, if_true]

/-- What holds of the directories that a walk passes, and what it comes to where the walk ends. -/
structure Along (disk : Disk) (passed : Location → Prop) (reached : Spot → Prop) : Prop where
  root : passed []
  up : ∀ here, passed here → passed here.tail
  down : ∀ here name, passed here → disk.node? (name :: here) = some .directory → passed (name :: here)
  stop : ∀ here, passed here → reached (.taken here .directory)
  free : ∀ here name, passed here → disk.node? (name :: here) = none → reached (.free (name :: here))
  taken : ∀ here name node, passed here → disk.node? (name :: here) = some node → (∀ target, node ≠ .link target) →
    reached (.taken (name :: here) node)

section
variable {passed : Location → Prop} {reached : Spot → Prop}

theorem Along.walkSteps {steps : List Step} (along : disk.Along passed reached) (begun : passed here)
    (followed : ∀ here target rest, passed here → follow here target rest = .ok spot → reached spot)
    (walked : disk.walkSteps purpose follow here steps = .ok spot) : reached spot := by
  induction steps generalizing here with
  | nil =>
    obtain rfl := Except.ok.inj walked
    exact along.stop here begun
  | cons step rest ih =>
    cases step with
    | stay => exact ih begun walked
    | slash => exact ih begun walked
    | up => exact ih (along.up here begun) walked
    | name name =>
      obtain ⟨-, -, arrived⟩ := walkSteps_name_iff.1 walked
      cases arrived with
      | free stands last found => exact found ▸ along.free here name begun stands
      | directory stands onward => exact ih (along.down here name begun stands) onward
      | link stands onward => exact followed _ _ _ begun onward
      | taken stands proper unlinked last found => exact found ▸ along.taken here name _ begun stands unlinked

theorem Along.walk {links : Nat} {steps : List Step} (along : disk.Along passed reached) (begun : passed here)
    (walked : disk.walk purpose links here steps = .ok spot) : reached spot := by
  induction links generalizing here steps with
  | zero =>
    rw [Disk.walk] at walked
    refine along.walkSteps begun ?_ walked
    nofun
  | succ links ih =>
    rw [Disk.walk] at walked
    refine along.walkSteps begun (fun there target rest begun onward => ih ?_ onward) walked
    unfold start
    split_ifs
    · exact along.root
    · exact begun

/-- What is kept along every walk holds where a path leads. -/
theorem Along.locate {path : Bytes} (along : disk.Along passed reached) (begun : passed disk.home)
    (located : disk.locate purpose path = .ok spot) : reached spot := by
  unfold Disk.locate at located
  split_ifs at located
  refine along.walk ?_ located
  unfold start
  split_ifs
  · exact along.root
  · exact begun

end

/-- What is known about the disk at the end of a walk. -/
def Found (disk : Disk) : Spot → Prop
  | .taken location node => node ≠ .directory → disk.node? location = some node ∧ ∀ target, node ≠ .link target
  | .free location => disk.node? location = none

theorem found_locate {path : Bytes} (located : disk.locate purpose path = .ok spot) : disk.Found spot := by
  have along : disk.Along (fun _ => True) disk.Found :=
    { root := trivial
      up := fun _ _ => trivial
      down := fun _ _ _ _ => trivial
      stop := fun _ _ proper => absurd rfl proper
      free := fun _ _ _ stands => stands
      taken := fun _ _ _ _ stands unlinked _ => ⟨stands, unlinked⟩ }
  exact along.locate trivial located

/-! ## Putting a file where a path leads -/

/-- Nothing stands at the location but a file, if anything does. -/
structure Final (disk : Disk) (location : Location) : Prop where
  undirected : disk.node? location ≠ some .directory
  unlinked : ∀ target, disk.node? location ≠ some (.link target)
  undeviced : ∀ device, disk.node? location ≠ some (.device device)

theorem Final.ne_root (final : disk.Final location) : location ≠ [] := by
  rintro rfl
  exact final.undirected rfl

theorem Final.of_none (vacant : disk.node? location = none) : disk.Final location :=
  ⟨by simp [vacant], by simp [vacant], by simp [vacant]⟩

theorem Final.of_file {old : Bytes} (stands : disk.node? location = some (.file old)) : disk.Final location :=
  ⟨by simp [stands], by simp [stands], by simp [stands]⟩

theorem Final.free_or_file (final : disk.Final location) :
    disk.node? location = none ∨ ∃ old, disk.node? location = some (.file old) := by
  cases stands : disk.node? location with
  | none => exact .inl rfl
  | some node =>
    cases node with
    | file old => exact .inr ⟨old, rfl⟩
    | directory => exact absurd stands final.undirected
    | link target => exact absurd stands (final.unlinked target)
    | device device => exact absurd stands (final.undeviced device)

/-- A walk for the same purpose, or for reading, finds the spot as it is after a file has been
    put at a location. -/
theorem walkSteps_put {purpose' : Purpose} {follow' : Location → Bytes → List Step → Walk} {data : Bytes}
    {steps : List Step} (final : disk.Final location) (eased : purpose' = .writing → purpose = .writing)
    (followed : ∀ here target rest, follow here target rest = .ok spot →
      follow' here target rest = .ok (spot.filled location data))
    (walked : disk.walkSteps purpose follow here steps = .ok spot) :
    (disk.put location (.file data)).walkSteps purpose' follow' here steps = .ok (spot.filled location data) := by
  have filled : (disk.put location (.file data)).node? location = some (.file data) := by
    rw [node?_put final.ne_root, if_pos rfl]
  have kept {there : Location} {standing : Option Node} (apart : there ≠ location)
      (stands : disk.node? there = standing) : (disk.put location (.file data)).node? there = standing := by
    rw [node?_put final.ne_root, if_neg apart, stands]
  induction steps generalizing here with
  | nil =>
    obtain rfl := Except.ok.inj walked
    rfl
  | cons step rest ih =>
    cases step with
    | stay => exact ih walked
    | slash => exact ih walked
    | up => exact ih walked
    | name name =>
      obtain ⟨allowed, short, arrived⟩ := walkSteps_name_iff.1 walked
      refine walkSteps_name_iff.2 ⟨fun refused => allowed ⟨eased refused.1, refused.2⟩, short, ?_⟩
      cases arrived with
      | free stands last found =>
        subst found
        by_cases same : name :: here = location
        · subst same
          exact .taken filled nofun nofun last (Spot.filled_of_file? rfl data)
        · have apart : (Spot.free (name :: here)).file? ≠ some location := by simpa [Spot.file?] using same
          exact .free (kept same stands) last (Spot.filled_elsewhere apart data)
      | directory stands onward =>
        have apart : name :: here ≠ location := by
          rintro rfl
          exact final.undirected stands
        exact .directory (kept apart stands) (ih onward)
      | @link target stands onward =>
        have apart : name :: here ≠ location := by
          rintro rfl
          exact final.unlinked target stands
        exact .link (kept apart stands) (followed _ _ _ onward)
      | @taken node stands proper unlinked last found =>
        subst found
        cases node with
        | file old =>
          by_cases same : name :: here = location
          · subst same
            exact .taken filled nofun nofun last (Spot.filled_of_file? rfl data)
          · have apart : (Spot.taken (name :: here) (.file old)).file? ≠ some location := by
              simpa [Spot.file?] using same
            exact .taken (kept same stands) nofun nofun last (Spot.filled_elsewhere apart data)
        | device device =>
          have apart : name :: here ≠ location := by
            rintro rfl
            exact final.undeviced device stands
          exact .taken (kept apart stands) nofun nofun last rfl
        | directory => exact absurd rfl proper
        | link target => exact absurd rfl (unlinked target)

theorem walk_put {purpose' : Purpose} {data : Bytes} {links : Nat} {steps : List Step} (final : disk.Final location)
    (eased : purpose' = .writing → purpose = .writing) (walked : disk.walk purpose links here steps = .ok spot) :
    (disk.put location (.file data)).walk purpose' links here steps = .ok (spot.filled location data) := by
  induction links generalizing here steps with
  | zero =>
    rw [walk] at walked ⊢
    refine walkSteps_put final eased ?_ walked
    nofun
  | succ links ih =>
    rw [walk] at walked ⊢
    exact walkSteps_put final eased (fun _ _ _ onward => ih onward) walked

theorem locate_put (purpose' : Purpose) {path : Bytes} (final : disk.Final location)
    (eased : purpose' = .writing → purpose = .writing) (located : disk.locate purpose path = .ok spot) (data : Bytes) :
    (disk.put location (.file data)).locate purpose' path = .ok (spot.filled location data) := by
  unfold locate at located ⊢
  split_ifs at located with nul empty long
  rw [if_neg nul, if_neg empty, if_neg long]
  exact walk_put final eased located

/-- A path that reads a file leads to it. -/
theorem locate_of_file? {path old : Bytes} (found : disk.file? path = some (location, old)) :
    disk.locate .reading path = .ok (.taken location (.file old)) ∧ disk.Final location := by
  unfold file? at found
  split at found
  case h_2 => cases found
  case h_1 located =>
    obtain ⟨rfl, rfl⟩ := Prod.mk.inj (Option.some.inj found)
    obtain ⟨stands, -⟩ := found_locate located nofun
    exact ⟨located, .of_file stands⟩

/-- What is put where a path reads a file is what it reads afterwards. -/
theorem file?_put {path old : Bytes} (found : disk.file? path = some (location, old)) (data : Bytes) :
    (disk.put location (.file data)).file? path = some (location, data) := by
  obtain ⟨located, final⟩ := locate_of_file? found
  rw [file?, locate_put .reading final nofun located, Spot.filled_of_file? rfl]

/-- A path that reads a file reads the same file after another has been put elsewhere. -/
theorem file?_put_elsewhere {path old : Bytes} {there : Location} (found : disk.file? path = some (location, old))
    (final : disk.Final there) (apart : there ≠ location) (data : Bytes) :
    (disk.put there (.file data)).file? path = some (location, old) := by
  obtain ⟨located, -⟩ := locate_of_file? found
  have elsewhere : (Spot.taken location (.file old)).file? ≠ some there := by simpa [Spot.file?] using Ne.symm apart
  rw [file?, locate_put .reading final nofun located, Spot.filled_elsewhere elsewhere]

/-- A path that can be written to as a file leads to a spot for that file. -/
theorem exists_spot_of_target {path : Bytes} (opened : disk.target path = .ok (.file location)) :
    ∃ spot, disk.locate .writing path = .ok spot ∧ spot.file? = some location ∧ disk.Final location ∧
      disk.refusal .writing location = none := by
  unfold target at opened
  cases located : disk.locate .writing path with
  | error error => simp [located] at opened
  | ok spot =>
    have found := found_locate located
    simp only [located] at opened
    refine ⟨spot, rfl, ?_⟩
    cases spot with
    | free there =>
      obtain ⟨allowed, same⟩ := allow_eq_ok_iff.1 opened
      obtain rfl : there = location := Target.file.inj same
      exact ⟨rfl, .of_none found, allowed⟩
    | taken there node =>
      cases node with
      | directory => cases opened
      | device device =>
        obtain ⟨-, other⟩ := allow_eq_ok_iff.1 opened
        cases other
      | link target => exact absurd rfl ((found nofun).2 target)
      | file old =>
        obtain ⟨allowed, same⟩ := allow_eq_ok_iff.1 opened
        obtain rfl : there = location := Target.file.inj same
        obtain ⟨stands, -⟩ := found nofun
        exact ⟨rfl, .of_file stands, allowed⟩

theorem final_of_target {path : Bytes} (opened : disk.target path = .ok (.file location)) : disk.Final location := by
  obtain ⟨-, -, -, final, -⟩ := exists_spot_of_target opened
  exact final

/-- What is put in a target is what its path reads afterwards. -/
theorem file?_fill {path : Bytes} (opened : disk.target path = .ok (.file location)) (data : Bytes) :
    (disk.fill data (.file location)).file? path = some (location, data) := by
  obtain ⟨spot, located, filed, final, -⟩ := exists_spot_of_target opened
  rw [fill, file?, locate_put .reading final nofun located, Spot.filled_of_file? filed]

/-- A target that has been filled is the same target. -/
theorem target_fill {path : Bytes} (opened : disk.target path = .ok (.file location)) (data : Bytes) :
    (disk.fill data (.file location)).target path = .ok (.file location) := by
  obtain ⟨spot, located, filed, final, allowed⟩ := exists_spot_of_target opened
  rw [fill, target, locate_put .writing final id located, Spot.filled_of_file? filed]
  exact allow_of_allowed allowed _

end Disk

end PlainHeader
