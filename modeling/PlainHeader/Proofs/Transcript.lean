import PlainHeader.Proofs.Lines
import PlainHeader.Stream.Transcript

/-!
# What a transcript writes and how it ends

A sink does not tell pieces apart: writing them one after the other is writing them
joined, and the refusal comes at the same byte. So a transcript hands the sink the
rendering of all legible lines at once, whatever the pieces were, and the obstacle of the
source counts only when none of it was refused.
-/

namespace PlainHeader

namespace Sink

theorem write_nil (sink : Sink) : sink.write [] = (sink, none) := by
  have nothing : sink.fitting [] = [] := by
    unfold fitting
    split <;> simp
  simp [write, nothing, append]

theorem fitting_starts (sink : Sink) (piece : Bytes) : sink.fitting piece <+: piece := by
  unfold fitting
  split
  · exact List.prefix_rfl
  · exact List.take_prefix _ _

theorem append_append (sink : Sink) (front rest : Bytes) :
    (sink.append front).append rest = sink.append (front ++ rest) := by
  simp [append, ← Array.toList_inj]

theorem write_append (sink : Sink) (front rest : Bytes) :
    sink.write (front ++ rest) =
      match sink.write front with
      | (sink, none) => sink.write rest
      | (sink, some cause) => (sink, some cause) := by
  cases bound : sink.limit with
  | none =>
    have after : (sink.append front).limit = none := bound
    simp [write_of_unlimited bound, write_of_unlimited after, append_append]
  | some limit =>
    rw [write_of_limited bound, write_of_limited bound]
    by_cases full : limit - sink.taken.size < front.length
    · have fuller : limit - sink.taken.size < (front ++ rest).length := by
        rw [List.length_append]
        omega
      rw [if_pos full, if_pos fuller, List.take_append_of_le_length (by omega)]
    · have after : (sink.append front).limit = some limit := bound
      have size : (sink.append front).taken.size = sink.taken.size + front.length := by
        simp [append, ← Array.length_toList]
      have room : limit - sink.taken.size < (front ++ rest).length ↔
          limit - (sink.taken.size + front.length) < rest.length := by
        rw [List.length_append]
        omega
      simp only [full, if_false, room, List.take_append, List.take_of_length_le (Nat.le_of_not_lt full)]
      rw [write_of_limited after, size, append_append]
      simp only [Nat.sub_sub]
      rfl

/-- Writing pieces up to the first refusal is writing them joined. -/
theorem writeAll_eq_write (sink : Sink) (pieces : List Bytes) : Outlet.writeAll sink pieces = sink.write pieces.flatten := by
  induction pieces generalizing sink with
  | nil => rw [Outlet.writeAll, List.flatten_nil, write_nil]
  | cons piece rest ih =>
    have here : Outlet.write sink piece = sink.write piece := rfl
    rw [Outlet.writeAll, here, List.flatten_cons, write_append]
    rcases sink.write piece with ⟨next, _ | cause⟩
    · exact ih next
    · rfl

end Sink

/-- The bytes of the header that texts become: every line that one becomes, with a line
    feed behind it. -/
def Rules.rendering (rules : Rules) (texts : List Text) : Bytes :=
  (texts.flatMap rules.convert).flatMap fun line => Utf8.encode line ++ [Source.lineFeed]

theorem flatten_linePieces (lines : List Text) :
    (linePieces lines).flatten = lines.flatMap fun line => Utf8.encode line ++ [Source.lineFeed] := by
  induction lines with
  | nil => rfl
  | cons line lines ih => simp only [linePieces, List.flatMap_cons, List.flatten_append] at *; simp [ih]

theorem Rules.rendering_nil (rules : Rules) : rules.rendering [] = [] := rfl

theorem Rules.rendering_cons (rules : Rules) (text : Text) (texts : List Text) :
    rules.rendering (text :: texts) = (linePieces (rules.convert text)).flatten ++ rules.rendering texts := by
  simp [rendering, flatten_linePieces]

/-- The rendering is the text of its lines, in bytes. -/
theorem Rules.rendering_eq_encode (rules : Rules) (texts : List Text) :
    rules.rendering texts = Utf8.encode ((texts.flatMap rules.convert).flatMap (· ++ ['\n'])) := by
  have feed : Utf8.encode ['\n'] = [Source.lineFeed] := by decide
  unfold rendering
  induction texts.flatMap rules.convert with
  | nil => rfl
  | cons line lines ih => simp only [List.flatMap_cons, Utf8.encode_append, feed, ih]

/-- A sink takes the rendering of the legible lines in one piece. Only when it takes all of
    it does the work go on to what stops the reader, or to the end. -/
theorem transcribeFrom_eq (rules : Rules) (labels : Labels) (count : Nat) (sink : Sink) (lines : List Bytes)
    (failure : Option Cause) :
    transcribeFrom rules labels count sink (lines.map Source.read ++ failure.toList.map .error) =
      match sink.write (rules.rendering (Source.textsOf lines)) with
      | (sink, some cause) => (sink, .error (labels.unwritable cause))
      | (sink, none) =>
        (sink, match Source.stopOf lines failure with
          | some cause => .error (labels.unreadable cause)
          | none => .ok (count + lines.length)) := by
  induction lines generalizing count sink with
  | nil =>
    rw [Source.textsOf_nil, Rules.rendering_nil, Sink.write_nil]
    cases failure <;> simp [transcribeFrom, Source.stopOf]
  | cons line lines ih =>
    by_cases valid : Utf8.Valid line
    · obtain ⟨text, rfl⟩ := valid
      rw [List.map_cons, Source.read_encode, Source.textsOf_cons, Source.stopOf_cons, Rules.rendering_cons,
        Sink.write_append, List.cons_append, transcribeFrom, writeLine, Sink.writeAll_eq_write]
      rcases sink.write (linePieces (rules.convert text)).flatten with ⟨next, _ | cause⟩
      · simp only [ih, List.length_cons, Nat.add_assoc, Nat.add_comm 1]
      · rfl
    · rw [List.map_cons, Source.read_of_not_valid valid, Source.textsOf_cons_of_not_valid valid,
        Source.stopOf_cons_of_not_valid valid, Rules.rendering_nil, Sink.write_nil]
      rfl

theorem transcribe_eq (rules : Rules) (labels : Labels) (source : Source) (sink : Sink) :
    transcribe rules labels source sink =
      match sink.write (rules.rendering source.legible) with
      | (sink, some cause) => (sink, .error (labels.unwritable cause))
      | (sink, none) =>
        (sink, match source.obstacle with
          | some cause => .error (labels.unreadable cause)
          | none => .ok source.lines.length) := by
  have run := transcribeFrom_eq rules labels 0 sink source.lines source.failure
  rw [Nat.zero_add] at run
  rw [transcribe, Source.readings_eq, run]
  rfl

theorem transcribe_of_unlimited {sink : Sink} (unlimited : sink.limit = none) (rules : Rules) (labels : Labels)
    (source : Source) :
    transcribe rules labels source sink =
      (sink.append (rules.rendering source.legible),
        match source.obstacle with
        | some cause => .error (labels.unreadable cause)
        | none => .ok source.lines.length) := by
  have ended := transcribe_eq rules labels source sink
  rw [Sink.write_of_unlimited unlimited] at ended
  exact ended

/-- What an empty sink has taken of a piece, and whether it refused some of it. -/
theorem Sink.write_empty (limit : Option Nat) (full : Cause) (flushFailure : Option Cause) (piece : Bytes) :
    let written := ({ limit, full, flushFailure } : Sink).write piece
    written.1.bytes = limit.elim piece piece.take ∧
      written.2 = if limit.any (· < piece.length) then some full else none := by
  cases limit with
  | none =>
    rw [Sink.write_of_unlimited rfl]
    exact ⟨by rw [Sink.bytes_append]; rfl, rfl⟩
  | some limit =>
    have bound : ({ limit := some limit, full, flushFailure } : Sink).limit = some limit := rfl
    rw [Sink.write_of_limited bound]
    refine ⟨by rw [Sink.bytes_append]; rfl, ?_⟩
    simp only [Option.any_some, decide_eq_true_eq]
    rfl

/-- How a transcript into an empty sink ends, for every source, sink and table. The sink has
    taken the front of the rendering of the legible lines that it has room for. When that
    is not all of it, the refusal is the fault; else the obstacle of the source is, and
    without one the number of lines is answered. -/
theorem transcribe_empty_sink (rules : Rules) (labels : Labels) (source : Source) (limit : Option Nat) (full : Cause)
    (flushFailure : Option Cause) :
    let whole := rules.rendering source.legible
    let (sink, result) := transcribe rules labels source ({ limit, full, flushFailure } : Sink)
    sink.bytes = limit.elim whole whole.take ∧
      result =
        (if limit.any (· < whole.length) then .error (.failed ("cannot write ".toList ++ labels.output) full)
         else match source.obstacle with
          | some cause => .error (.failed ("cannot read ".toList ++ labels.input) cause)
          | none => .ok source.lines.length) ∧
      (∀ activity cause, (Fault.failed activity cause).message = activity ++ ": ".toList ++ cause.message) ∧
      Cause.notUtf8.message = "stream did not contain valid UTF-8".toList := by
  intro whole
  obtain ⟨taken, refusal⟩ := Sink.write_empty limit full flushFailure whole
  rw [transcribe_eq]
  generalize ({ limit, full, flushFailure } : Sink).write whole = written at taken refusal ⊢
  obtain ⟨sink, answer⟩ := written
  by_cases refused : limit.any (· < whole.length) = true
  · obtain rfl : answer = some full := refusal.trans (if_pos refused)
    exact ⟨taken, (if_pos refused).symm, fun _ _ => rfl, rfl⟩
  · obtain rfl : answer = none := refusal.trans (if_neg refused)
    refine ⟨taken, ?_, fun _ _ => rfl, rfl⟩
    rw [if_neg refused]
    rfl

end PlainHeader
