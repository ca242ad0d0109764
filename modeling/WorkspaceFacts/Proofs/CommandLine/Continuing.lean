import WorkspaceFacts.Program
import WorkspaceFacts.Proofs.CommandLine.Reading

/-!
# Command lines that go on

A command line can be cut anywhere, and the question is what the part behind the cut can still
change. Two things can reach across the cut: a setting that waits for its value, and a fault that
waits to be reported. Neither is there where the first part is read to its end without a fault,
so the reader goes on as if it had been started with the options given so far
(`WorkspaceFacts.CommandLine.readFrom_append`). And neither of them is what help, the version, an
unknown argument or an unneeded value are met as: these end the reading at once
(`WorkspaceFacts.CommandLine.Stop.IsImmediate`), and what stands behind them is not looked at
(`WorkspaceFacts.CommandLine.readFrom_append_of_error`).

Which options the two parts give together is a matter of gifts and not of arguments: those of
the one part stand behind those of the other, and no two of them may be of the same option.
-/

namespace WorkspaceFacts

namespace CommandLine

variable {o o' given : Options} {gifts more : List Gift}

/-! ### Two command lines, one behind the other -/

/-- **What ends the reading where it is met.** The other faults can lie in a value that is an
argument of its own, and such a value is judged later. -/
inductive Stop.IsImmediate : Stop → Prop
  | help (long : Bool) : IsImmediate (.help long)
  | version : IsImmediate .version
  | unknownArgument : IsImmediate .unknownArgument
  | unneededValue : IsImmediate .unneededValue

/-- No option is given by both. -/
def Options.Apart (o o' : Options) : Prop := ∀ item, ¬(o.has item = true ∧ o'.has item = true)

/-- The options of two command lines, each of them taken from the one that gives it. -/
def Options.together (o o' : Options) : Options where
  workspace := o.workspace.or o'.workspace
  format := o.format.or o'.format
  quiet := o.quiet || o'.quiet
  verbose := o.verbose || o'.verbose

/-! ### Gifts of both -/

/-- What has been given is an option of the command line that can be given. -/
theorem exists_gift_of_has {item : Item} (h : o.has item = true) :
    ∃ gift : Gift, gift.item = item := by
  rcases item with (_ | _ | _ | _) | (_ | _)
  · exact ⟨.flag .quiet, rfl⟩
  · exact ⟨.flag .verbose, rfl⟩
  · cases h
  · cases h
  · exact ⟨.workspace [], rfl⟩
  · exact ⟨.format .lines, rfl⟩

/-- Options are apart if what is said of them is of different options. -/
theorem Says.apart_iff (h : Says gifts o) (h' : Says more o') :
    o.Apart o' ↔ (gifts.map Gift.item).Disjoint (more.map Gift.item) := by
  constructor
  · intro hapart item hg hm
    obtain ⟨gift, -, rfl⟩ := List.mem_map.1 hg
    exact hapart _ ⟨(h.has_iff gift).2 hg, (h'.has_iff gift).2 hm⟩
  · rintro hdisjoint item ⟨hg, hm⟩
    obtain ⟨gift, rfl⟩ := exists_gift_of_has hg
    exact hdisjoint ((h.has_iff gift).1 hg) ((h'.has_iff gift).1 hm)

/-- Options that are apart say together what each of them says. -/
theorem Says.together (h : Says gifts o) (h' : Says more o') (hapart : o.Apart o') :
    Says (gifts ++ more) (o.together o') := by
  have hw := hapart (.setting .workspace)
  have hf := hapart (.setting .format)
  obtain ⟨hworkspace, hformat, hquiet, hverbose⟩ := h
  obtain ⟨hworkspace', hformat', hquiet', hverbose'⟩ := h'
  constructor
  · intro path
    rw [List.mem_append, ← hworkspace, ← hworkspace', Options.together]
    cases ho : o.workspace with
    | none => simp
    | some p => simp_all [Options.has]
  · intro format
    rw [List.mem_append, ← hformat, ← hformat', Options.together]
    cases ho : o.format with
    | none => simp
    | some p => simp_all [Options.has]
  · rw [List.mem_append, ← hquiet, ← hquiet', Options.together, Bool.or_eq_true]
  · rw [List.mem_append, ← hverbose, ← hverbose', Options.together, Bool.or_eq_true]

/-- **Further gifts can be given to options** if they can be given by themselves and are of none of
these options. -/
theorem takeAll_eq_ok_iff (h : Options.empty.takeAll gifts = .ok o) :
    o.takeAll more = .ok o' ↔
      ∃ given, Options.empty.takeAll more = .ok given ∧ o.Apart given ∧ o' = o.together given := by
  have hall : o.takeAll more = Options.empty.takeAll (gifts ++ more) := by
    rw [takeAll_append, h]
    rfl
  obtain ⟨nodup, said⟩ := Says.of_takeAll h
  rw [hall, takeAll_empty_eq_ok_iff, List.map_append]
  constructor
  · rintro ⟨hnodup, hsaid⟩
    obtain ⟨-, hmore, hdisjoint⟩ := List.nodup_append'.1 hnodup
    obtain ⟨given, hgiven⟩ := exists_takeAll hmore
    have said' := (Says.of_takeAll hgiven).2
    have hapart := (said.apart_iff said').2 hdisjoint
    exact ⟨given, hgiven, hapart, hsaid.eq (said.together said' hapart)⟩
  · rintro ⟨given, hgiven, hapart, rfl⟩
    obtain ⟨hmore, said'⟩ := Says.of_takeAll hgiven
    exact ⟨List.nodup_append'.2 ⟨nodup, hmore, (said.apart_iff said').1 hapart⟩,
      said.together said' hapart⟩

/-! ### Across the cut -/

variable {args rest : List Bytes} {state : Except Stop Options} {stop : Stop}

/-- **Where a command line is read to its end, the reader goes on** with the options that it has
got. A terminator would keep it from doing so. -/
theorem readFrom_append (h : readFrom state args = .ok o) (hno : [dash, dash] ∉ args)
    (rest : List Bytes) : readFrom state (args ++ rest) = readFrom (.ok o) rest := by
  fun_induction readFrom state args with
  | case1 => rw [h, List.nil_append]
  | case2 _ arg rest' ht he =>
    -- The terminator.
    have harg : arg = [dash, dash] := by simpa [isTerminator] using ht
    exact absurd List.mem_cons_self (harg ▸ hno)
  | case3 => cases h
  | case4 => cases h
  | case5 _ arg rest' ht o₁ hr ih =>
    rw [List.cons_append, readFrom, if_neg ht, hr]
    exact ih h fun hmem => hno (List.mem_cons_of_mem _ hmem)
  | case6 => cases h
  | case7 _ arg ht o₁ s hr value after hv ih =>
    rw [List.cons_append, readFrom, if_neg ht, hr]
    simp only [List.cons_append, hv, if_true]
    exact ih h fun hmem => hno (List.mem_cons_of_mem _ (List.mem_cons_of_mem _ hmem))
  | case8 => exact absurd h (readFrom_error _ _)

/-- What is said of a value waits. -/
theorem not_isImmediate_of_give {s : Setting} {value : Bytes} (h : o.give value s = .error stop) :
    ¬stop.IsImmediate := by
  cases s
  all_goals
    unfold Options.give at h
    repeat' split at h
    all_goals cases h <;> nofun

/-- **What ends the reading at once is met again** whatever stands behind. It cannot have waited,
and the reader has gone the same way up to it. -/
theorem readFrom_append_of_error (hwaits : ∀ e, state = .error e → ¬e.IsImmediate)
    (h : readFrom state args = .error stop) (hs : stop.IsImmediate) (rest : List Bytes) :
    readFrom state (args ++ rest) = .error stop := by
  fun_induction readFrom state args with
  | case1 => exact absurd hs (hwaits stop h)
  | case2 => exact absurd hs (hwaits stop h)
  | case3 state arg rest' ht he =>
    -- Behind a terminator there was something already.
    rw [List.cons_append, readFrom, if_pos ht, if_neg (by simp_all), ← h]
  | case4 state arg rest' ht e hr => rw [List.cons_append, readFrom, if_neg ht, hr, ← h]
  | case5 state arg rest' ht o₁ hr ih =>
    rw [List.cons_append, readFrom, if_neg ht, hr]
    exact ih (fun e he => by cases he) h
  | case6 =>
    cases h
    cases hs
  | case7 state arg ht o₁ s hr value after hv ih =>
    rw [List.cons_append, readFrom, if_neg ht, hr]
    simp only [List.cons_append, hv, if_true]
    exact ih (fun e => not_isImmediate_of_give) h
  | case8 state arg ht o₁ s hr value after hv ih =>
    rw [List.cons_append, readFrom, if_neg ht, hr]
    simp only [List.cons_append, hv]
    refine ih (fun e he himmediate => ?_) h
    cases he
    cases himmediate

/-- Two command lines are read one behind the other if each of them is read and they give
different options. -/
theorem read_append_eq_ok_iff (h : read args = .ok o) (hno : [dash, dash] ∉ args) :
    read (args ++ rest) = .ok o' ↔
      ∃ given, read rest = .ok given ∧ o.Apart given ∧ o' = o.together given := by
  obtain ⟨gifts, -, hgifts⟩ := exists_spells h
  rw [read, readFrom_append h hno]
  constructor
  · intro h'
    obtain ⟨more, hspelled, hmore⟩ := exists_spells h'
    obtain ⟨given, hgiven, hboth⟩ := (takeAll_eq_ok_iff hgifts).1 hmore
    exact ⟨given, hspelled.readFrom hgiven, hboth⟩
  · rintro ⟨given, hgiven, hboth⟩
    obtain ⟨more, hspelled, hmore⟩ := exists_spells hgiven
    exact hspelled.readFrom ((takeAll_eq_ok_iff hgifts).2 ⟨given, hmore, hboth⟩)

end CommandLine

/-! ### A run whose arguments go on -/

namespace Program

open CommandLine

/-- **Arguments take effect where they are met.** Where the arguments end in help, the version, an
unknown argument or an unneeded value, they end in the same whatever stands behind them, and so
does a run, whatever the files and the environment are: its exit status and all that it prints are
decided. And where they are read, without a terminator among them, they can be read with others
behind them exactly if these can be read by themselves and give no option that has been given; each
option is then the one that either of them gives. -/
theorem arguments_take_effect_where_met (args : List Bytes) :
    (∀ stop, CommandLine.read args = .error stop → stop.IsImmediate → ∀ rest,
      CommandLine.read (args ++ rest) = .error stop ∧
      ∀ files files' root root' log log',
        run files ⟨args ++ rest, root, log⟩ = run files' ⟨args, root', log'⟩) ∧
    ∀ o, CommandLine.read args = .ok o → [dash, dash] ∉ args → ∀ rest o',
      CommandLine.read (args ++ rest) = .ok o' ↔
        ∃ given, CommandLine.read rest = .ok given ∧ o.Apart given ∧ o' = o.together given := by
  constructor
  · intro stop h hs rest
    have hwaits : ∀ e, (.ok .empty : Except Stop Options) = .error e → ¬e.IsImmediate := nofun
    have hread : CommandLine.read (args ++ rest) = .error stop :=
      readFrom_append_of_error hwaits h hs rest
    refine ⟨hread, fun files files' root root' log log' => ?_⟩
    rw [run, run, hread, h]
  · intro o h hno rest o'
    exact read_append_eq_ok_iff h hno

/-- Help is met behind a switch and before a terminator and bytes that spell no text. A path that is
a lone dash is complete, so that letters and a terminator can follow it; but another path cannot. -/
theorem arguments_in_two_parts :
    CommandLine.read [Utf8.encode "-q", Utf8.encode "-h", Utf8.encode "--", [0xFF]] =
        .error (.help false) ∧
      CommandLine.read [Utf8.encode "-w", Utf8.encode "-", Utf8.encode "-vf=json",
        Utf8.encode "--"] = .ok ⟨some (Utf8.encode "-"), some .json, false, true⟩ ∧
      ∀ o, CommandLine.read [Utf8.encode "-w", Utf8.encode "-", Utf8.encode "-vwx"] ≠ .ok o := by
  obtain ⟨stopped, -⟩ := arguments_take_effect_where_met [Utf8.encode "-q", Utf8.encode "-h"]
  obtain ⟨-, continued⟩ := arguments_take_effect_where_met [Utf8.encode "-w", Utf8.encode "-"]
  have hpath := continued ⟨some (Utf8.encode "-"), none, false, false⟩ rfl (by decide)
  have hjson : CommandLine.read [Utf8.encode "-vf=json", Utf8.encode "--"] =
      .ok ⟨none, some .json, false, true⟩ := by decide +kernel
  refine ⟨(stopped (.help false) rfl (.help false) [Utf8.encode "--", [0xFF]]).1,
    (hpath _ _).2 ⟨_, hjson, ?_, rfl⟩, fun o h => ?_⟩
  · rintro ((_ | _ | _ | _) | (_ | _)) <;> decide
  · obtain ⟨given, hgiven, hapart, -⟩ := (hpath [Utf8.encode "-vwx"] o).1 h
    cases hgiven
    exact hapart (.setting .workspace) ⟨rfl, rfl⟩

end Program

end WorkspaceFacts
