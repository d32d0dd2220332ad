/-
  Commands — a failure is told to a workflow in one line, from which its message can be read again.

  Three characters have a code in the data of a command, and one pass from left to right replaces
  the codes again:

      100%             100%25             100%
      a line break     a line%0Abreak     a line break
      %0A              %250A              %0A

  Since `%` has a code too, no code can come from anything but the character it stands for, also
  where a message spells one itself.  So the data of commands are just the texts on one line in which
  every `%` begins a code, and each of them is the data of one message (`exists_commandData_iff`).

  1. **Replacing** — the three codes, put in one after the other (`replaceAll_eq`).
  2. **Reading** — `unescaped`, and that it undoes escaping and is undone by it.
  3. **Failures** — the one line of a failure, of a run (`failure_is_one_command`) and of the
     process.
-/
import ReleaseMatrix.Proofs.Report.StepOutputs
import ReleaseMatrix.Proofs.Run.Causes

namespace ReleaseMatrix

namespace Report

/-! ## Replacing -/

/-- The characters that have a code, in the order in which they are replaced. -/
def codes : List (Char × List Char) :=
  [('%', ['%', '2', '5']), ('\r', ['%', '0', 'D']), ('\n', ['%', '0', 'A'])]

/-- Puts a code in place of a character, wherever it stands. -/
def replace (c : Char) (code : List Char) (text : List Char) : List Char :=
  text.flatMap fun d => if d = c then code else [d]

/-- Puts in all codes, one after the other. -/
def replaceAll (text : List Char) : List Char :=
  codes.foldl (fun text (c, code) => replace c code text) text

/-- A character is escaped to its code, or it has none and stays. -/
theorem escapedInCommand_cases (c : Char) :
    (c, escapedInCommand c) ∈ codes ∨ c ∉ codes.map Prod.fst ∧ escapedInCommand c = [c] := by
  unfold escapedInCommand
  split_ifs with hpercent hreturn hnewline
  · exact .inl (by simp [codes, hpercent])
  · exact .inl (by simp [codes, hreturn])
  · exact .inl (by simp [codes, hnewline])
  · exact .inr ⟨by simp [codes, hpercent, hreturn, hnewline], rfl⟩

theorem escapedInCommand_ne_nil (c : Char) : escapedInCommand c ≠ [] := by
  unfold escapedInCommand
  split_ifs <;> simp

theorem replaceAll_append (front text : List Char) :
    replaceAll (front ++ text) = replaceAll front ++ replaceAll text := by
  simp only [replaceAll, codes, List.foldl_cons, List.foldl_nil, replace, List.flatMap_append]

/-- No later code touches what an earlier one has put in. -/
theorem replaceAll_singleton (c : Char) : replaceAll [c] = escapedInCommand c := by
  have hcodes : ∀ p ∈ codes, replaceAll [p.1] = p.2 := by decide
  rcases escapedInCommand_cases c with hmem | ⟨hc, hself⟩
  · exact hcodes _ hmem
  · simp only [codes, List.map_cons, List.map_nil, List.mem_cons, List.not_mem_nil, or_false,
      not_or] at hc
    rw [hself]
    simp [replaceAll, codes, replace, hc]

/-- **Escaping is replacing the three characters in a row**, `%` first. -/
theorem replaceAll_eq (text : List Char) : replaceAll text = text.flatMap escapedInCommand := by
  induction text with
  | nil => rfl
  | cons c text ih =>
    rw [← List.singleton_append, replaceAll_append, replaceAll_singleton, ih]
    rfl

theorem toList_commandData (text : String) :
    (commandData text).toList = text.toList.flatMap escapedInCommand :=
  String.toList_ofList

/-! ## Reading -/

/-- Replaces the codes by the characters they stand for, in one pass from left to right. -/
def unescaped : List Char → List Char
  | '%' :: '2' :: '5' :: rest => '%' :: unescaped rest
  | '%' :: '0' :: 'D' :: rest => '\r' :: unescaped rest
  | '%' :: '0' :: 'A' :: rest => '\n' :: unescaped rest
  | c :: rest => c :: unescaped rest
  | [] => []

/-- The data of a command: on one line, and every `%` begins a code. -/
structure IsCommandData (data : List Char) : Prop where
  no_return : '\r' ∉ data
  no_newline : '\n' ∉ data
  coded : ∀ behind, '%' :: behind <:+ data → ∃ p ∈ codes, p.2 <+: '%' :: behind

theorem unescaped_cons {c : Char} (hc : c ≠ '%') (rest : List Char) :
    unescaped (c :: rest) = c :: unescaped rest := by
  rw [unescaped] <;> simp [hc]

theorem unescaped_code {p : Char × List Char} (hp : p ∈ codes) (rest : List Char) :
    unescaped (p.2 ++ rest) = p.1 :: unescaped rest := by
  simp only [codes, List.mem_cons, List.not_mem_nil, or_false] at hp
  rcases hp with rfl | rfl | rfl <;> rfl

/-- The character in front is read of its escape. -/
theorem unescaped_escapedInCommand (c : Char) (rest : List Char) :
    unescaped (escapedInCommand c ++ rest) = c :: unescaped rest := by
  rcases escapedInCommand_cases c with hmem | ⟨hc, hself⟩
  · exact unescaped_code hmem rest
  · have hpercent : c ≠ '%' := fun h => hc (h ▸ by decide)
    rw [hself]
    exact unescaped_cons hpercent rest

/-- **One pass gives back what was escaped.** -/
theorem unescaped_flatMap (text : List Char) :
    unescaped (text.flatMap escapedInCommand) = text := by
  induction text with
  | nil => rfl
  | cons c text ih => rw [List.flatMap_cons, unescaped_escapedInCommand, ih]

namespace IsCommandData

/-- An empty text is data of a command. -/
theorem nil : IsCommandData [] where
  no_return := List.not_mem_nil
  no_newline := List.not_mem_nil
  coded _ h := absurd (List.suffix_nil.mp h) (List.cons_ne_nil _ _)

/-- A character goes in front; with a `%`, this makes a code. -/
theorem cons {c : Char} {data : List Char} (hreturn : c ≠ '\r') (hnewline : c ≠ '\n')
    (hcode : c = '%' → ∃ p ∈ codes, p.2 <+: '%' :: data) (h : IsCommandData data) :
    IsCommandData (c :: data) where
  no_return := List.not_mem_cons_of_ne_of_not_mem hreturn.symm h.no_return
  no_newline := List.not_mem_cons_of_ne_of_not_mem hnewline.symm h.no_newline
  coded behind hsuffix := by
    rcases List.suffix_cons_iff.mp hsuffix with heq | hsuffix
    · obtain ⟨rfl, rfl⟩ := List.cons.inj heq
      exact hcode rfl
    · exact h.coded behind hsuffix

/-- What a character is escaped to goes in front. -/
theorem escape {data : List Char} (h : IsCommandData data) (c : Char) :
    IsCommandData (escapedInCommand c ++ data) := by
  rcases escapedInCommand_cases c with hmem | ⟨hc, hself⟩
  · -- a code is a `%` and two characters that could stand anywhere
    obtain ⟨a, b, hcode, hplain⟩ : ∃ a b, escapedInCommand c = ['%', a, b] ∧
        ∀ d ∈ [a, b], d ≠ '\r' ∧ d ≠ '\n' ∧ d ≠ '%' := by
      generalize escapedInCommand c = code at hmem
      simp only [codes, List.mem_cons, Prod.mk.injEq, List.not_mem_nil, or_false] at hmem
      rcases hmem with ⟨-, rfl⟩ | ⟨-, rfl⟩ | ⟨-, rfl⟩ <;> exact ⟨_, _, rfl, by simp⟩
    obtain ⟨hareturn, hanewline, ha⟩ := hplain a (by simp)
    obtain ⟨hbreturn, hbnewline, hb⟩ := hplain b (by simp)
    rw [hcode] at hmem ⊢
    exact .cons (by decide) (by decide) (fun _ => ⟨_, hmem, List.prefix_append ['%', a, b] data⟩)
      (.cons hareturn hanewline (absurd · ha) (.cons hbreturn hbnewline (absurd · hb) h))
  · have hne : ∀ d ∈ codes.map Prod.fst, c ≠ d := fun d hd h => hc (h ▸ hd)
    rw [hself]
    exact .cons (hne _ (by decide)) (hne _ (by decide)) (absurd · (hne _ (by decide))) h

/-- Every text, escaped, is data of a command. -/
theorem flatMap (text : List Char) : IsCommandData (text.flatMap escapedInCommand) := by
  induction text with
  | nil => exact nil
  | cons c text ih => exact ih.escape c

/-- What stands behind something in the data could be data itself. -/
theorem of_append {front data : List Char} (h : IsCommandData (front ++ data)) :
    IsCommandData data where
  no_return hmem := h.no_return (List.mem_append_right _ hmem)
  no_newline hmem := h.no_newline (List.mem_append_right _ hmem)
  coded behind hsuffix := h.coded behind (hsuffix.trans (List.suffix_append _ _))

/-- In front there is what some character is escaped to. -/
theorem exists_escape {c : Char} {rest : List Char} (h : IsCommandData (c :: rest)) :
    ∃ d behind, c :: rest = escapedInCommand d ++ behind := by
  have hcodes : ∀ p ∈ codes, escapedInCommand p.1 = p.2 := by decide
  by_cases hpercent : c = '%'
  · subst hpercent
    obtain ⟨p, hp, behind, hbehind⟩ := h.coded rest List.suffix_rfl
    exact ⟨p.1, behind, by rw [hcodes p hp, hbehind]⟩
  · have hc : c ∉ codes.map Prod.fst := by
      have hreturn : c ≠ '\r' := fun h' => h.no_return (h' ▸ List.mem_cons_self)
      have hnewline : c ≠ '\n' := fun h' => h.no_newline (h' ▸ List.mem_cons_self)
      simp [codes, hpercent, hreturn, hnewline]
    rcases escapedInCommand_cases c with hmem | ⟨-, hself⟩
    · exact absurd (List.mem_map_of_mem hmem) hc
    · exact ⟨c, rest, by rw [hself, List.singleton_append]⟩

/-- **Escaping what the pass has read gives the data again.** -/
theorem flatMap_unescaped {data : List Char} (h : IsCommandData data) :
    (unescaped data).flatMap escapedInCommand = data := by
  induction hn : data.length using Nat.strong_induction_on generalizing data with
  | h n ih =>
    cases data with
    | nil => rfl
    | cons c rest =>
      -- the induction is on the length, since a code takes more than one character off
      obtain ⟨d, behind, heq⟩ := h.exists_escape
      have hshorter : behind.length < n := by
        have hne : escapedInCommand d ≠ [] := escapedInCommand_ne_nil d
        have hlength := congrArg List.length heq
        rw [List.length_append] at hlength
        have := List.length_pos_iff.mpr hne
        omega
      rw [heq] at h ⊢
      rw [unescaped_escapedInCommand, List.flatMap_cons,
        ih behind.length hshorter h.of_append rfl]

end IsCommandData

/-- **The data of commands are the data of messages.** -/
theorem exists_commandData_iff {data : List Char} :
    (∃ text, (commandData text).toList = data) ↔ IsCommandData data := by
  constructor
  · rintro ⟨text, rfl⟩
    rw [toList_commandData]
    exact .flatMap _
  · intro h
    refine ⟨String.ofList (unescaped data), ?_⟩
    rw [toList_commandData, String.toList_ofList, h.flatMap_unescaped]

/-- Different messages have different data. -/
theorem commandData_injective : Function.Injective commandData := by
  intro text other h
  have hdata := congrArg (fun data => unescaped data.toList) h
  simp only [toList_commandData, unescaped_flatMap] at hdata
  exact String.toList_inj.mp hdata

/-- Both line breaks, and a message that spells a code itself. -/
example : commandData "50%\r\n%0A" = "50%25%0D%0A%250A" := by decide +kernel

/-! ## Failures -/

/-- In `github` format a failure is one line. -/
theorem lines_command (what : String) :
    StepFile.lines (command what).toList = [("::error::" ++ commandData what).toList] := by
  have hline : '\n' ∉ ("::error::" ++ commandData what).toList := by
    have hdata := (exists_commandData_iff.mp ⟨what, rfl⟩).no_newline
    rw [String.toList_append, List.mem_append]
    rintro (hmark | hmem)
    · exact absurd hmark (by decide)
    · exact hdata hmem
  have htext : (command what).toList = ("::error::" ++ commandData what).toList ++ '\n' :: [] :=
    String.toList_append
  rw [htext, StepFile.lines_append_newline, StepFile.lines_nil, List.splitOn_eq_singleton hline]
  rfl

end Report

namespace Run

open Report

/-- **A failure is one command, and nothing of its message is lost.**  Escaping a message replaces
the three characters in a row.  The data that come of it hold no line break, every `%` in them begins
a code, and one pass from left to right that replaces the codes gives back the message.  So in
`github` format any failure is reported in one line; this line is all that a failing run says, and
the process says it behind its journal. -/
theorem failure_is_one_command :
    (∀ text, (commandData text).toList = replaceAll text.toList ∧
      IsCommandData (commandData text).toList ∧
      unescaped (commandData text).toList = text.toList) ∧
    (∀ color what causes, StepFile.lines (failure color what causes .github).toList =
      [("::error::" ++ commandData what).toList]) ∧
    (∀ s c e, (stages s c).result = .error e → c.format = .github →
      StepFile.lines (outcome s c).stderr.toList =
        [("::error::" ++ commandData e.message).toList]) ∧
    ∀ args env files service c, CommandLine.read args env = .ok c →
      ∀ e, (stages (Program.surroundings env files service) c).result = .error e →
        c.format = .github →
        (Program.run args env files service).stderr =
          Program.journalText env c.verbose
              (stages (Program.surroundings env files service) c).records
            ++ ("::error::" ++ commandData e.message ++ "\n") := by
  have hstderr {s : Surroundings} {c : CommandLine} {e : Failure}
      (h : (stages s c).result = .error e) (hformat : c.format = .github) :
      (outcome s c).stderr = command e.message := by
    rw [stderr_of_github h hformat, e.message_eq]
  refine ⟨fun text => ⟨?_, ?_, ?_⟩, fun _ what _ => lines_command what, ?_, ?_⟩
  · rw [toList_commandData, replaceAll_eq]
  · exact exists_commandData_iff.mp ⟨text, rfl⟩
  · rw [toList_commandData, unescaped_flatMap]
  · intro s c e h hformat
    rw [hstderr h hformat, lines_command]
  · intro args env files service c hread e h hformat
    rw [Program.run_of_read hread]
    show _ ++ (outcome (Program.surroundings env files service) c).stderr = _
    rw [hstderr h hformat, command]

/-- A catalog's file with a `%` and a line break in its name is missing. -/
theorem failure_is_one_command_missing :
    let s : Surroundings := ⟨⟨fun _ => none, []⟩, fun _ => .dropped, none, false⟩
    let c : CommandLine :=
      ⟨".", some ">=8", ⟨none, none, none, none, some "50%\n.json"⟩, .github, false⟩
    let e : Failure := .catalog (.file "50%\n.json") (.unreadable "50%\n.json" .notFound)
    let args := ["--constraint", ">=8", "--catalog-file", "50%\n.json"]
    CommandLine.read args (fun _ => none) = .ok c ∧
    (stages s c).result = .error e ∧
    StepFile.lines (outcome s c).stderr.toList =
      ["::error::Failed to load release catalog from 50%25%0A.json".toList] ∧
    (Program.run args (fun _ => none) s.files s.service).stderr =
      "::error::Failed to load release catalog from 50%25%0A.json\n" := by
  intro s c e args
  have hread : CommandLine.read args (fun _ => none) = .ok c := by
    rfl
  have hfails : (stages s c).result = .error e := by
    unfold s c e
    rfl
  obtain ⟨-, -, hlines, hprocess⟩ := failure_is_one_command
  have hdata : "::error::" ++ commandData e.message =
      "::error::Failed to load release catalog from 50%25%0A.json" := by
    decide +kernel
  refine ⟨hread, hfails, ?_, ?_⟩
  · rw [hlines s c e hfails rfl, hdata]
  · have hjournal : Program.journalText (fun _ => none) c.verbose
        (stages (Program.surroundings (fun _ => none) s.files s.service) c).records = "" := by
      decide +kernel
    rw [hprocess args (fun _ => none) s.files s.service c hread e hfails rfl, hjournal, hdata]
    decide +kernel

end Run
end ReleaseMatrix
