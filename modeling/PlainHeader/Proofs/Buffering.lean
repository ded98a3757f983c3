import PlainHeader.HeaderFile
import PlainHeader.Proofs.Transcript

/-!
# Nothing is lost in a buffer

Two outlets are alike when they refuse the same pieces and stay related by what they take; a
transcript into one then ends as into the other. A buffered outlet over a sink without a
limit is like a sink that is written to at once: what the first has accepted, in its sink or
waiting, is what the second has taken. When the buffer is released the sinks hold the same.
Work on such an outlet only adds to what it has accepted (`Buffered.Extends`), also when it reads
what it writes, so a header begins with its banner line in any case.
-/

namespace PlainHeader

section
variable {σ τ : Type} [Outlet σ] [Outlet τ] {related : σ → τ → Prop} {out : σ} {other : τ}

/-- Related outlets answer every piece alike and are related again. -/
def Alike (related : σ → τ → Prop) : Prop :=
  ∀ out other piece, related out other →
    related (Outlet.write out piece).1 (Outlet.write other piece).1 ∧
      (Outlet.write out piece).2 = (Outlet.write other piece).2

theorem Alike.writeAll (alike : Alike related) (start : related out other) (pieces : List Bytes) :
    related (Outlet.writeAll out pieces).1 (Outlet.writeAll other pieces).1 ∧
      (Outlet.writeAll out pieces).2 = (Outlet.writeAll other pieces).2 := by
  induction pieces generalizing out other with
  | nil => exact ⟨start, rfl⟩
  | cons piece rest ih =>
    have step := alike out other piece start
    simp only [Outlet.writeAll]
    generalize Outlet.write out piece = written, Outlet.write other piece = written' at step ⊢
    obtain ⟨out, refusal⟩ := written
    obtain ⟨other, _⟩ := written'
    obtain ⟨after, rfl⟩ := step
    cases refusal with
    | none => exact ih after
    | some cause => exact ⟨after, rfl⟩

theorem Alike.transcribeFrom (alike : Alike related) (start : related out other) (rules : Rules) (labels : Labels)
    (count : Nat) (readings : List Reading) :
    related (transcribeFrom rules labels count out readings).1 (transcribeFrom rules labels count other readings).1 ∧
      (transcribeFrom rules labels count out readings).2 = (transcribeFrom rules labels count other readings).2 := by
  induction readings generalizing out other count with
  | nil => exact ⟨start, rfl⟩
  | cons reading rest ih =>
    cases reading with
    | error cause => exact ⟨start, rfl⟩
    | ok line =>
      have step := alike.writeAll start (linePieces (rules.convert line))
      simp only [PlainHeader.transcribeFrom, writeLine]
      generalize Outlet.writeAll out (linePieces (rules.convert line)) = written,
        Outlet.writeAll other (linePieces (rules.convert line)) = written' at step ⊢
      obtain ⟨out, refusal⟩ := written
      obtain ⟨other, _⟩ := written'
      obtain ⟨after, rfl⟩ := step
      cases refusal with
      | none => exact ih after (count + 1)
      | some cause => exact ⟨after, rfl⟩

end

namespace Buffered

variable {out : Buffered}

/-- All that has been written to the outlet, whether it waits or not. -/
def accepted (out : Buffered) : Bytes := out.sink.bytes ++ out.waiting.toList

theorem release_of_unlimited (unlimited : out.sink.limit = none) :
    out.release = ({ sink := out.sink.append out.waiting.toList }, none) := by
  rw [release, Sink.write_of_unlimited unlimited]

theorem accepted_hold (out : Buffered) (piece : Bytes) : (out.hold piece).accepted = out.accepted ++ piece := by
  simp [accepted, hold]

/-- A piece that does not wait finds nothing waiting. -/
theorem makeRoom_of_unlimited (unlimited : out.sink.limit = none) (piece : Bytes) :
    ∃ after, out.makeRoom piece = (after, none) ∧ after.sink.limit = none ∧ after.accepted = out.accepted ∧
      (capacity ≤ piece.length → after.waiting = #[]) := by
  unfold makeRoom
  by_cases crowded : out.room < piece.length
  · rw [if_pos crowded, release_of_unlimited unlimited]
    exact ⟨_, rfl, unlimited, by simp [accepted], fun _ => rfl⟩
  · rw [if_neg crowded]
    refine ⟨out, rfl, unlimited, rfl, ?_⟩
    intro large
    have : out.waiting.size = 0 := by
      unfold room at crowded
      have : 0 < capacity := by decide
      omega
    exact Array.eq_empty_of_size_eq_zero this

/-- Over a sink without a limit every piece is accepted behind what was accepted before. -/
theorem write_of_unlimited (unlimited : out.sink.limit = none) (piece : Bytes) :
    ∃ after, out.write piece = (after, none) ∧ after.sink.limit = none ∧ after.accepted = out.accepted ++ piece := by
  unfold write
  by_cases fits : piece.length < out.room
  · rw [if_pos fits]
    exact ⟨_, rfl, unlimited, accepted_hold out piece⟩
  rw [if_neg fits]
  obtain ⟨roomy, made, unlimited', same, emptied⟩ := makeRoom_of_unlimited unlimited piece
  rw [made]
  by_cases large : capacity ≤ piece.length
  · have passed : roomy.pass piece = ({ roomy with sink := roomy.sink.append piece }, none) := by
      rw [pass, Sink.write_of_unlimited unlimited']
    simp only [if_pos large, passed]
    refine ⟨_, rfl, unlimited', ?_⟩
    rw [← same]
    simp [accepted, emptied large]
  · simp only [if_neg large]
    exact ⟨_, rfl, unlimited', same ▸ accepted_hold roomy piece⟩

/-- Over a sink without a limit all pieces are accepted, in order. -/
theorem writeAll_of_unlimited (unlimited : out.sink.limit = none) (pieces : List Bytes) :
    ∃ after, Outlet.writeAll out pieces = (after, none) ∧ after.sink.limit = none ∧
      after.accepted = out.accepted ++ pieces.flatten := by
  induction pieces generalizing out with
  | nil => exact ⟨out, rfl, unlimited, (List.append_nil _).symm⟩
  | cons piece rest ih =>
    obtain ⟨next, written, unlimited', accepted⟩ := write_of_unlimited unlimited piece
    have written : Outlet.write out piece = (next, none) := written
    obtain ⟨after, finished, unlimited'', all⟩ := ih unlimited'
    refine ⟨after, ?_, unlimited'', ?_⟩
    · rw [Outlet.writeAll, written]
      exact finished
    · rw [all, accepted, List.flatten_cons, List.append_assoc]

/-- A later state of an outlet whose sink has no limit: all that was accepted still is. -/
structure Extends (before after : Buffered) : Prop where
  unlimited : after.sink.limit = none
  accepted : before.accepted <+: after.accepted

theorem Extends.refl (unlimited : out.sink.limit = none) : out.Extends out := ⟨unlimited, List.prefix_rfl⟩

theorem Extends.trans {before between after : Buffered} (first : before.Extends between)
    (second : between.Extends after) : before.Extends after :=
  ⟨second.unlimited, first.accepted.trans second.accepted⟩

theorem extends_writeLine (unlimited : out.sink.limit = none) (rules : Rules) (line : Text) :
    ∃ after, writeLine rules out line = (after, none) ∧ out.Extends after := by
  obtain ⟨after, written, unlimited', accepted⟩ := writeAll_of_unlimited unlimited (linePieces (rules.convert line))
  exact ⟨after, written, unlimited', _, accepted.symm⟩

theorem extends_transcribeFrom (unlimited : out.sink.limit = none) (rules : Rules) (labels : Labels) (count : Nat)
    (readings : List Reading) : out.Extends (transcribeFrom rules labels count out readings).1 := by
  induction readings generalizing out count with
  | nil => exact .refl unlimited
  | cons reading rest ih =>
    cases reading with
    | error cause => exact .refl unlimited
    | ok line =>
      obtain ⟨next, written, longer⟩ := extends_writeLine unlimited rules line
      rw [transcribeFrom, written]
      exact longer.trans (ih longer.unlimited (count + 1))

theorem extends_overwriting (unlimited : out.sink.limit = none) (rules : Rules) (labels : Labels) (seen count : Nat) :
    out.Extends (Overwriting.transcribeFrom rules labels seen count out).1 := by
  fun_induction Overwriting.transcribeFrom rules labels seen count out with
  | case1 => exact .refl unlimited
  | case2 => exact .refl unlimited
  | case3 => exact .refl unlimited
  | case4 seen count out unread room line read next cause written =>
    obtain ⟨after, accepted, longer⟩ := extends_writeLine unlimited rules line
    rw [written] at accepted
    cases accepted
  | case5 seen count out unread room line read next written ih =>
    obtain ⟨after, accepted, longer⟩ := extends_writeLine unlimited rules line
    rw [written] at accepted
    obtain ⟨rfl, -⟩ := Prod.mk.inj accepted
    exact longer.trans (ih longer.unlimited)

/-- Pieces that leave room all wait together. -/
theorem writeAll_of_fits {pieces : List Bytes} (fits : pieces.flatten.length < out.room) :
    Outlet.writeAll out pieces = (out.hold pieces.flatten, none) := by
  induction pieces generalizing out with
  | nil =>
    have unchanged : out.hold [] = out := by simp [hold]
    rw [Outlet.writeAll, List.flatten_nil, unchanged]
  | cons piece rest ih =>
    rw [List.flatten_cons, List.length_append] at fits
    have held : Outlet.write out piece = (out.hold piece, none) := if_pos (by omega)
    have room : (out.hold piece).room = out.room - piece.length := by
      simp [hold, room, ← Array.length_toList, Nat.sub_sub]
    have together : (out.hold piece).hold rest.flatten = out.hold (piece ++ rest.flatten) := by
      simp [hold, ← Array.toList_inj]
    rw [Outlet.writeAll, held, List.flatten_cons, ← together]
    exact ih (by omega)

/-- A sink has taken what a buffered outlet has accepted, and neither has a limit. -/
structure Ahead (out : Buffered) (sink : Sink) : Prop where
  unlimited : out.sink.limit = none
  unlimited' : sink.limit = none
  taken : sink.bytes = out.accepted

theorem alike_ahead : Alike Ahead := by
  intro out sink piece ahead
  obtain ⟨after, written, unlimited, accepted⟩ := write_of_unlimited ahead.unlimited piece
  have written : Outlet.write out piece = (after, none) := written
  have taken : Outlet.write sink piece = (sink.append piece, none) := Sink.write_of_unlimited ahead.unlimited' piece
  rw [written, taken]
  refine ⟨⟨unlimited, ahead.unlimited', ?_⟩, rfl⟩
  rw [Sink.bytes_append, ahead.taken, accepted]

theorem Ahead.release {sink : Sink} (ahead : Ahead out sink) :
    ∃ after, out.release = (after, none) ∧ after.sink.bytes = sink.bytes := by
  refine ⟨_, release_of_unlimited ahead.unlimited, ?_⟩
  rw [Sink.bytes_append, ahead.taken, accepted]

end Buffered

/-- The line that a header begins with. -/
def bannerLine (banner : Text) : Bytes := Utf8.encode banner ++ [Source.lineFeed]

theorem flatten_linePieces_banner (banner : Text) : (linePieces [banner]).flatten = bannerLine banner := by
  simp [linePieces, bannerLine]

theorem extends_headerBody {out : Buffered} (unlimited : out.sink.limit = none) (rules : Rules) (labels : Labels)
    (location : Location) (source : Source) (target : Target) :
    out.Extends (headerBody rules labels location source target out).1 := by
  unfold headerBody
  split
  · exact Buffered.extends_overwriting unlimited rules labels 0 0
  · exact Buffered.extends_transcribeFrom unlimited rules labels 0 source.readings

/-- A header that nothing refuses begins with the banner line, whatever ends the body. -/
theorem bannerLine_prefix_writeHeader {body : Buffered → Buffered × Except Fault Nat}
    (extending : ∀ out : Buffered, out.sink.limit = none → out.Extends (body out).1) (labels : Labels)
    (banner : Text) :
    bannerLine banner <+: (writeHeader labels banner body {}).1.bytes := by
  have fresh : ({ sink := {} } : Buffered).sink.limit = none := rfl
  obtain ⟨begun, headed, unlimited, accepted⟩ := Buffered.writeAll_of_unlimited fresh (linePieces [banner])
  have begins : begun.accepted = bannerLine banner := by
    rw [accepted, flatten_linePieces_banner]
    rfl
  have longer := extending begun unlimited
  have kept : bannerLine banner <+: (body begun).1.release.1.sink.bytes := by
    rw [Buffered.release_of_unlimited longer.unlimited, Sink.bytes_append, ← begins]
    exact longer.accepted
  unfold writeHeader
  simp only [headed]
  generalize body begun = worked at longer kept ⊢
  obtain ⟨after, fault | count⟩ := worked
  · exact kept
  · have released : after.release = _ := Buffered.release_of_unlimited longer.unlimited
    simp only [released] at kept ⊢
    exact kept

/-- A header that nothing refuses is the banner line and what the body writes, also when the
    body fails. -/
theorem writeHeader_transcribe (rules : Rules) (labels : Labels) (banner : Text) (source : Source) :
    ∃ sink, sink.bytes = bannerLine banner ++ rules.rendering source.legible ∧
      writeHeader labels banner (transcribe rules labels source) {} =
        (sink, match source.obstacle with
          | some cause => .error (labels.unreadable cause)
          | none => .ok ()) := by
  have start : Buffered.Ahead { sink := {} } {} := ⟨rfl, rfl, rfl⟩
  have opened := Buffered.alike_ahead.writeAll start (linePieces [banner])
  rw [Sink.writeAll_eq_write, Sink.write_of_unlimited rfl, flatten_linePieces_banner] at opened
  unfold writeHeader
  generalize Outlet.writeAll ({ sink := {} } : Buffered) (linePieces [banner]) = written at opened ⊢
  obtain ⟨out, _⟩ := written
  obtain ⟨ahead, rfl⟩ := opened
  have ended := Buffered.alike_ahead.transcribeFrom ahead rules labels 0 source.readings
  rw [← transcribe, ← transcribe, transcribe_of_unlimited rfl] at ended
  simp only
  generalize transcribe rules labels source out = written at ended ⊢
  obtain ⟨out, _⟩ := written
  obtain ⟨ahead, rfl⟩ := ended
  obtain ⟨after, released, bytes⟩ := ahead.release
  rw [Sink.bytes_append, Sink.bytes_append] at bytes
  refine ⟨after.sink, bytes, ?_⟩
  cases source.obstacle <;> simp only [released]

/-- A reader of the file that is being written finds nothing while everything waits. -/
theorem Overwriting.transcribe_of_unreached {out : Buffered} (unreached : out.reached = 0) (rules : Rules)
    (labels : Labels) : Overwriting.transcribe rules labels out = (out, .ok 0) := by
  rw [Overwriting.transcribe, Overwriting.transcribeFrom, if_pos (Nat.le_of_eq unreached)]

/-- A header over its own source is the banner line alone, if that line can wait. -/
theorem writeHeader_overwriting {banner : Text} (fits : (bannerLine banner).length < Buffered.capacity)
    (rules : Rules) (labels : Labels) :
    ∃ sink, sink.bytes = bannerLine banner ∧
      writeHeader labels banner (Overwriting.transcribe rules labels) {} = (sink, .ok ()) := by
  let begun : Buffered := Buffered.hold { sink := {} } (bannerLine banner)
  have opened : Outlet.writeAll ({ sink := {} } : Buffered) (linePieces [banner]) = (begun, none) := by
    rw [← flatten_linePieces_banner] at fits
    rw [Buffered.writeAll_of_fits fits, flatten_linePieces_banner]
  have unreached : begun.reached = 0 := rfl
  have released : begun.release = ({ sink := begun.sink.append begun.waiting.toList }, none) :=
    Buffered.release_of_unlimited rfl
  refine ⟨begun.sink.append begun.waiting.toList, ?_, ?_⟩
  · simp [begun, Buffered.hold, Sink.append, Sink.bytes]
  · unfold writeHeader
    simp only [opened, Overwriting.transcribe_of_unreached unreached, released]

end PlainHeader
