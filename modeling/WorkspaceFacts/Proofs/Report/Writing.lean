import Mathlib.Data.List.Basic
import WorkspaceFacts.Proofs.Text.Encoding
import WorkspaceFacts.Report.Output

/-!
# Writing to a sink that may be closed

A report is sent in several requests, each of which the sink may meet in part or refuse. What
comes of them all is told by the number of bytes that the sink has room for
(`WorkspaceFacts.Report.write_is_exact`): the bytes that are taken are the first ones of the
output, and the writing succeeds exactly if that is all of them and they are passed on.

The account is kept by one relation, `WorkspaceFacts.Writing.Carries`, between a writing, the
sink before it and the bytes that it is about. A loop that offers what is left carries all of the
bytes, and two writings one after the other carry the bytes of the one and of the other.
-/

namespace WorkspaceFacts

/-! ### What a sink has room for -/

namespace Sink

variable {sink : Sink} {bytes : Bytes} {n : Nat} {e : WriteError}

/-- The part of some bytes that the sink has room for. -/
def part (sink : Sink) (bytes : Bytes) : Bytes := sink.room.elim bytes bytes.take

/-- The sink has room for so many bytes. -/
def Holds (sink : Sink) (n : Nat) : Prop := ∀ room, sink.room = some room → n ≤ room

theorem holds_zero (sink : Sink) : sink.Holds 0 := fun _ _ => Nat.zero_le _

theorem part_eq_self (h : sink.Holds bytes.length) : sink.part bytes = bytes := by
  rw [part]
  cases hroom : sink.room with
  | none => rfl
  | some room => exact List.take_of_length_le (h room hroom)

theorem room_after (sink : Sink) (n : Nat) : (sink.after n).room = sink.room.map (· - n) := rfl

theorem after_zero (sink : Sink) : sink.after 0 = sink := by
  rw [after]
  cases hroom : sink.room <;> simp [← hroom]

theorem after_after (sink : Sink) (n m : Nat) : (sink.after n).after m = sink.after (n + m) := by
  rw [after, after, after, Option.map_map]
  congr 2
  exact funext fun room => Nat.sub_sub room n m

theorem holds_after_iff (h : sink.Holds n) {m : Nat} :
    (sink.after n).Holds m ↔ sink.Holds (n + m) := by
  simp only [Holds, room_after, Option.map_eq_some_iff, forall_exists_index, and_imp,
    forall_apply_eq_imp_iff₂]
  refine forall₂_congr fun room hroom => ?_
  have hn := h room hroom
  omega

/-- **The part that a sink has room for, byte by byte**: what comes first, and what the sink
left by it has room for of the rest. -/
theorem part_append {first rest : Bytes} (h : sink.Holds first.length) :
    sink.part (first ++ rest) = first ++ (sink.after first.length).part rest := by
  rw [part, part, room_after]
  cases hroom : sink.room with
  | none => rfl
  | some room =>
    rw [Option.elim_some, Option.map_some, Option.elim_some, List.take_append,
      List.take_of_length_le (h room hroom)]

/-- The part of the first bytes is all that is taken if there is no room for these. -/
theorem part_append_of_not_holds {first : Bytes} (h : ¬sink.Holds first.length) (rest : Bytes) :
    sink.part (first ++ rest) = sink.part first := by
  obtain ⟨room, hroom, hlt⟩ : ∃ room, sink.room = some room ∧ room < first.length := by
    simpa [Holds] using h
  rw [part, part, hroom, Option.elim_some, Option.elim_some,
    List.take_append_of_le_length (Nat.le_of_lt hlt)]

/-- A sink takes some of the bytes that it is offered, and no more than it has room for. -/
theorem takes_eq_ok (h : sink.takes bytes = .ok n) :
    n ≤ bytes.length ∧ sink.Holds n ∧ (bytes ≠ [] → n ≠ 0) := by
  rw [takes] at h
  split at h
  · next hroom =>
    obtain rfl := Except.ok.inj h
    exact ⟨Nat.le_refl _, fun room hr => (nomatch hroom.symm.trans hr), by simp⟩
  · cases h
  · next room hne hroom =>
    obtain rfl := Except.ok.inj h
    have hpos : room ≠ 0 := by
      rintro rfl
      exact hne rfl
    refine ⟨Nat.min_le_right _ _, fun room' hr => ?_, fun hb => ?_⟩
    · exact Option.some.inj (hroom.symm.trans hr) ▸ Nat.min_le_left _ _
    · have hlen : bytes.length ≠ 0 := by simpa using hb
      omega

/-- Only a sink without room refuses bytes. -/
theorem takes_eq_error (h : sink.takes bytes = .error e) :
    sink.room = some 0 ∧ e = .brokenPipe := by
  rw [takes] at h
  split at h
  · cases h
  · next hroom => exact ⟨hroom, (Except.error.inj h).symm⟩
  · cases h

end Sink

/-! ### What writings carry -/

/-- **The writing stops at the first request that fails**: either all requests are met and there
is no error, or all but the last one are met, and the error is that of the last one. -/
inductive Writing.StopsAtFailure (w : Writing) : Prop
  | met (he : w.error = none) (h : ∀ x ∈ w.exchanges, ∃ n, x.outcome = .ok n)
  | failed {before : List Exchange} {last : Exchange} {e : WriteError} (he : w.error = some e)
      (hw : w.exchanges = before ++ [last]) (h : ∀ x ∈ before, ∃ n, x.outcome = .ok n)
      (hlast : last.outcome = .error e)

namespace Writing

variable {w : Writing} {next : Sink → Writing} {sink : Sink} {bytes more : Bytes}

/-- **The writing carries the bytes to the sink**: the sink takes the part that it has room for,
and is closed exactly if that is not all of them. -/
structure Carries (w : Writing) (sink : Sink) (bytes : Bytes) : Prop where
  taken : w.taken = sink.part bytes
  complete : sink.Holds bytes.length → w.error = none ∧ w.sink = sink.after bytes.length
  closed : ¬sink.Holds bytes.length → w.error = some .brokenPipe
  stops : w.StopsAtFailure

theorem andThen_of_error {e : WriteError} (h : w.error = some e) : w.andThen next = w := by
  rw [andThen, h]

theorem andThen_of_none (h : w.error = none) : w.andThen next =
    { next w.sink with exchanges := w.exchanges ++ (next w.sink).exchanges } := by
  rw [andThen, h]

/-- What goes on after a failure is nothing, so the first failure stops both. -/
theorem StopsAtFailure.andThen (h : w.StopsAtFailure)
    (h' : w.error = none → (next w.sink).StopsAtFailure) : (w.andThen next).StopsAtFailure := by
  cases h with
  | failed he hw hbefore hlast =>
    rw [andThen_of_error he]
    exact .failed he hw hbefore hlast
  | met he hall =>
    rw [andThen_of_none he]
    cases h' he with
    | met he' hall' => exact .met he' (List.forall_mem_append.2 ⟨hall, hall'⟩)
    | failed he' hw' hbefore' hlast' =>
      refine .failed he' ?_ (List.forall_mem_append.2 ⟨hall, hbefore'⟩) hlast'
      rw [hw', List.append_assoc]

theorem taken_andThen (h : w.error = none) :
    (w.andThen next).taken = w.taken ++ (next w.sink).taken := by
  rw [andThen_of_none h]
  exact List.flatMap_append

/-- **One writing after another carries the bytes of both.** -/
theorem Carries.andThen (h : w.Carries sink bytes)
    (h' : w.error = none → (next w.sink).Carries w.sink more) :
    (w.andThen next).Carries sink (bytes ++ more) := by
  have hstops := h.stops.andThen fun he => (h' he).stops
  by_cases hroom : sink.Holds bytes.length
  · obtain ⟨he, hs⟩ := h.complete hroom
    have hnext := h' he
    rw [hs] at hnext
    refine ⟨?_, fun hall => ?_, fun hno => ?_, hstops⟩
    · rw [taken_andThen he, h.taken, Sink.part_eq_self hroom, Sink.part_append hroom, hs,
        hnext.taken]
    · rw [List.length_append] at hall ⊢
      obtain ⟨he', hs'⟩ := hnext.complete ((Sink.holds_after_iff hroom).2 hall)
      rw [andThen_of_none he, hs, ← Sink.after_after]
      exact ⟨he', hs'⟩
    · rw [List.length_append, ← Sink.holds_after_iff hroom] at hno
      rw [andThen_of_none he, hs]
      exact hnext.closed hno
  · have he := h.closed hroom
    have hno : ¬sink.Holds (bytes ++ more).length := fun hall => hroom fun room hr => by
      have hle := hall room hr
      rw [List.length_append] at hle
      omega
    rw [andThen_of_error he] at hstops ⊢
    refine ⟨?_, fun hall => absurd hall hno, fun _ => he, hstops⟩
    rw [h.taken, Sink.part_append_of_not_holds hroom]

/-- A request that takes what it offers to take. -/
theorem carries_took {offered : Bytes} {n : Nat} (hlen : n ≤ offered.length)
    (hroom : sink.Holds n) : (⟨[⟨.take offered, .ok n⟩], none, sink.after n⟩ : Writing).Carries
      sink (offered.take n) := by
  have htaken : (offered.take n).length = n := List.length_take_of_le hlen
  refine ⟨?_, fun _ => ⟨rfl, by rw [htaken]⟩, fun hno => absurd (htaken.symm ▸ hroom) hno,
    .met rfl (by simp)⟩
  rw [Sink.part_eq_self (htaken.symm ▸ hroom)]
  exact List.append_nil _

end Writing

namespace Sink

/-- **The loop carries all of the bytes**, however many requests it takes. -/
theorem carries_writeAll (sink : Sink) (bytes : Bytes) :
    (sink.writeAll bytes).Carries sink bytes := by
  fun_induction writeAll sink bytes with
  | case1 sink =>
    refine ⟨?_, fun _ => ⟨rfl, (after_zero sink).symm⟩, fun h => absurd (holds_zero sink) h,
      .met rfl (List.forall_mem_nil _)⟩
    rw [part_eq_self (holds_zero sink)]
    rfl
  | case2 sink b rest e h =>
    -- There is no room at all.
    obtain ⟨hroom, rfl⟩ := takes_eq_error h
    refine ⟨?_, fun hall => ?_, fun _ => rfl, .failed rfl rfl (List.forall_mem_nil _) rfl⟩
    · rw [part, hroom]
      rfl
    · cases hall 0 hroom
  | case3 sink b rest h => exact absurd rfl ((takes_eq_ok h).2.2 (List.cons_ne_nil b rest))
  | case4 sink b rest n h ih =>
    -- The bytes are those that are taken first and those that the loop goes on with.
    obtain ⟨hlen, hroom, -⟩ := takes_eq_ok h
    have hcut : (b :: rest).take (n + 1) ++ rest.drop n = b :: rest :=
      List.take_append_drop (n + 1) (b :: rest)
    have hboth : (Writing.andThen ⟨[⟨.take (b :: rest), .ok (n + 1)⟩], none, sink.after (n + 1)⟩
        (·.writeAll (rest.drop n))).Carries sink ((b :: rest).take (n + 1) ++ rest.drop n) :=
      (Writing.carries_took hlen hroom).andThen fun _ => ih
    rwa [hcut] at hboth

/-- The request to pass on what was taken fails only if the sink fails to do so. -/
theorem stopsAtFailure_passOn (sink : Sink) : sink.passOn.StopsAtFailure := by
  rw [passOn]
  split
  · exact .failed rfl rfl (List.forall_mem_nil _) rfl
  · exact .met rfl (by simp)

theorem error_passOn (sink : Sink) :
    sink.passOn.error = if sink.flushFails then some .brokenPipe else none := by
  rw [passOn]
  split <;> rfl

theorem taken_passOn (sink : Sink) : sink.passOn.taken = [] := by
  rw [passOn]
  split <;> rfl

end Sink

/-! ### Sending a report -/

namespace Report

variable (report : Report) (format : Format) (sink : Sink)

/-- The text and the line end are carried together. -/
theorem carries_output : ((sink.writeAll (Utf8.encode (report.render format))).andThen
    (·.writeAll (Utf8.encode "\n"))).Carries sink (report.output format) := by
  rw [output, Utf8.encode_append]
  exact (sink.carries_writeAll _).andThen fun _ => Sink.carries_writeAll _ _

theorem stopsAtFailure_send : (report.send format sink).StopsAtFailure :=
  (carries_output report format sink).stops.andThen fun _ => Sink.stopsAtFailure_passOn _

/-- Where there is room for the whole output, only passing it on can fail. -/
theorem send_of_holds (h : sink.Holds (report.output format).length) :
    (report.send format sink).taken = report.output format ∧
      (report.send format sink).error = if sink.flushFails then some .brokenPipe else none := by
  have hc := carries_output report format sink
  obtain ⟨he, hs⟩ := hc.complete h
  rw [send, Writing.taken_andThen he, Sink.taken_passOn, List.append_nil, hc.taken,
    Sink.part_eq_self h, Writing.andThen_of_none he, hs]
  exact ⟨rfl, Sink.error_passOn _⟩

/-- Where there is no room for the whole output, nothing is passed on. -/
theorem send_of_not_holds (h : ¬sink.Holds (report.output format).length) :
    (report.send format sink).taken = sink.part (report.output format) ∧
      (report.send format sink).error = some .brokenPipe := by
  have hc := carries_output report format sink
  rw [send, Writing.andThen_of_error (hc.closed h)]
  exact ⟨hc.taken, hc.closed h⟩

theorem taken_send : (report.send format sink).taken = sink.part (report.output format) := by
  by_cases h : sink.Holds (report.output format).length
  · rw [(send_of_holds report format sink h).1, Sink.part_eq_self h]
  · exact (send_of_not_holds report format sink h).1

/-- **A report is written in full, or up to the byte at which the sink is closed.** The bytes that
are taken are the first ones of the output, as many as the sink has room for. The writing
succeeds exactly if these are all of them and they are passed on; otherwise its error is that the
other end is closed, and nothing is asked of the sink after the request that fails. -/
theorem write_is_exact :
    (report.write format sink).taken = sink.room.elim (report.output format)
      (fun room => (report.output format).take (min room (report.output format).length)) ∧
    (report.output format).length = (report.render format ++ "\n").utf8ByteSize ∧
    ((report.write format sink).error = none ↔
      (∀ room, sink.room = some room → (report.output format).length ≤ room) ∧
        sink.flushFails = false) ∧
    (∀ e, (report.write format sink).error = some e →
      e = .brokenPipe ∧ writeMessage e = "failed to write report to stdout: broken pipe") ∧
    (report.send format sink).StopsAtFailure := by
  refine ⟨?_, Utf8.length_encode _, ?_, fun e he => ?_, stopsAtFailure_send report format sink⟩
  · rw [write, taken_send, Sink.part]
    cases sink.room with
    | none => rfl
    | some room => exact List.take_eq_take_min
  · rw [write]
    by_cases h : sink.Holds (report.output format).length
    · rw [(send_of_holds report format sink h).2]
      cases sink.flushFails
      · exact iff_of_true rfl ⟨h, rfl⟩
      · exact iff_of_false nofun nofun
    · rw [(send_of_not_holds report format sink h).2]
      exact iff_of_false nofun fun hall => h hall.1
  · obtain rfl : e = .brokenPipe := by
      rw [write] at he
      by_cases h : sink.Holds (report.output format).length
      · rw [(send_of_holds report format sink h).2] at he
        cases hf : sink.flushFails <;> rw [hf] at he <;> cases he
        rfl
      · rw [(send_of_not_holds report format sink h).2] at he
        exact (Option.some.inj he).symm
    exact ⟨rfl, by decide⟩

/-- A report of four bytes: a character of two, the line end after it, an empty line, and the
line end of that. -/
def accentedReport : Report := ⟨[⟨"osi", "é"⟩], []⟩

/-- A sink that is closed inside the character, one that lacks room for the last line end only,
one that has just enough room, and one that has enough and fails at the very end. -/
theorem write_accentedReport :
    (accentedReport.write .lines ⟨some 1, false⟩).taken = [0xC3] ∧
      (accentedReport.write .lines ⟨some 3, false⟩).taken = [0xC3, 0xA9, 0x0A] ∧
      (accentedReport.write .lines ⟨some 3, false⟩).error ≠ none ∧
      (accentedReport.write .lines ⟨some 4, false⟩).error = none ∧
      (accentedReport.write .lines ⟨some 4, true⟩).error ≠ none ∧
      ∀ e, (accentedReport.write .lines ⟨some 4, true⟩).error = some e →
        writeMessage e = "failed to write report to stdout: broken pipe" := by
  have houtput : accentedReport.output .lines = [0xC3, 0xA9, 0x0A, 0x0A] := by decide
  have told := fun room fails => write_is_exact accentedReport .lines ⟨some room, fails⟩
  simp only [houtput] at told
  refine ⟨(told 1 false).1, (told 3 false).1, fun he => ?_, (told 4 false).2.2.1.2 ?_,
    fun he => ?_, fun e he => ((told 4 true).2.2.2.1 e he).2⟩
  · exact absurd (((told 3 false).2.2.1.1 he).1 3 rfl) (by decide)
  · exact ⟨fun room hr => Option.some.inj hr ▸ Nat.le_refl 4, rfl⟩
  · cases ((told 4 true).2.2.1.1 he).2

end Report

end WorkspaceFacts
