/-
  Causes — whether the report of a failure tells what stopped the run.

  The error that stopped a stage may be wrapped into what the run was about to do, and may itself
  have causes.  Together these messages are a chain:

      Failed to load release catalog from c.json
      Failed to read release catalog c.json: No such file or directory (os error 2)     the reason
      No such file or directory (os error 2)

  In `json` and `text` format each message of the chain has its line.  In `github` format only the
  first one is reported.  That is the reason if nothing is wrapped around it.  If something is, the
  reason is dropped; a bad status, or what is wrong with a catalog's file, is nowhere in the report.

  1. **Texts** — `Report.Shows`; escaping keeps the count of most characters.
  2. **Chains** — `Failure.context?` and `Failure.reason`.
  3. **Sources** — `Stage.FailsWith`, and from it that a failure of the catalog names the place that
     the run was to take it from (`failsWith_stages`).
  4. **Runs** — `shows_reason_unless_wrapped`.
-/
import ReleaseMatrix.Proofs.Catalog.Retries
import ReleaseMatrix.Proofs.Run.Footprint

namespace ReleaseMatrix

/-! ## Texts -/

namespace Report

variable {text message line : String}

/-- The message stands in the text as it is. -/
def Shows (text message : String) : Prop := message.toList <:+: text.toList

instance : Decidable (Shows text message) := inferInstanceAs (Decidable (_ <:+: _))

theorem shows_between (before message behind : String) :
    Shows (before ++ message ++ behind) message := by
  rw [Shows, String.toList_append, String.toList_append]
  exact List.infix_append _ _ _

theorem Shows.behind (h : Shows text message) (before : String) :
    Shows (before ++ text) message := by
  rw [Shows, String.toList_append]
  exact h.trans (List.suffix_append _ _).isInfix

theorem Shows.join {lines : List String} (h : Shows line message) (hmem : line ∈ lines) :
    Shows (String.join lines) message := by
  rw [Shows, String.toList_join]
  exact h.trans (List.infix_of_mem_flatten (List.mem_map_of_mem hmem))

/-- Of a failure, the formats without a command show what failed and all causes behind it. -/
theorem shows_failure (color : Bool) {what : String} {causes : List String} {format : Format}
    (hformat : format ≠ .github) (hmem : message ∈ what :: causes) :
    Shows (failure color what causes format) message := by
  have hlines : failure color what causes format =
      Text.styledIf color "1;31" "Error:" ++ " " ++ what ++ "\n"
        ++ String.join (causes.map fun cause => "  Caused by: " ++ cause ++ "\n") := by
    cases format with
    | github => exact absurd rfl hformat
    | json | text => rfl
  rw [hlines]
  rcases List.mem_cons.mp hmem with rfl | hmem
  · rw [String.append_assoc]
    exact shows_between _ _ _
  · have hline : "  Caused by: " ++ message ++ "\n" ∈
        causes.map fun cause => "  Caused by: " ++ cause ++ "\n" :=
      List.mem_map.mpr ⟨message, hmem, rfl⟩
    exact Shows.behind (Shows.join (shows_between _ _ _) hline) _

/-- The command of a failure is one line. -/
def command (what : String) : String := "::error::" ++ commandData what ++ "\n"

/-- What is escaped in a command, and what the escapes are made of. -/
def escapeChars : List Char := ['%', '\r', '\n', '2', '5', '0', 'D', 'A']

theorem escaped_subset :
    ∀ d ∈ ['%', '\r', '\n'], d ∈ escapeChars ∧ escapedInCommand d ⊆ escapeChars := by
  simp [escapeChars, escapedInCommand]

/-- Escaping a character takes and adds none of the others. -/
theorem count_escapedInCommand {c : Char} (hc : c ∉ escapeChars) (d : Char) :
    (escapedInCommand d).count c = [d].count c := by
  -- an escaped character leaves nothing but escape characters, and any other one stays
  by_cases hd : d ∈ ['%', '\r', '\n']
  · obtain ⟨hself, hescape⟩ := escaped_subset d hd
    have hne : d ≠ c := fun h => hc (h ▸ hself)
    rw [List.count_eq_zero.mpr fun hmem => hc (hescape hmem), List.count_singleton,
      if_neg (by simpa using hne)]
  · simp only [List.mem_cons, List.not_mem_nil, or_false, not_or] at hd
    rw [escapedInCommand, if_neg hd.1, if_neg hd.2.1, if_neg hd.2.2]

/-- So it keeps how often each other character occurs in a text. -/
theorem count_commandData {c : Char} (hc : c ∉ escapeChars) (text : String) :
    (commandData text).toList.count c = text.toList.count c := by
  rw [commandData, String.toList_ofList]
  induction text.toList with
  | nil => rfl
  | cons d ds ih =>
    rw [List.flatMap_cons, List.count_append, count_escapedInCommand hc, ih, ← List.count_append]
    rfl

/-- A command does not show what has more of some character, unless escapes have it too. -/
theorem not_shows_command {c : Char} (hc : c ∉ escapeChars)
    (hcommand : c ∉ "::error::".toList) {what : String}
    (h : what.toList.count c < message.toList.count c) :
    ¬ Shows (command what) (commandData message) := by
  intro hshows
  -- escaping takes and adds no `c`, so the counts are those of the two texts
  have hcount := hshows.sublist.count_le c
  have hend : c ∉ "\n".toList := fun hmem =>
    hc ((by decide : "\n".toList ⊆ escapeChars) hmem)
  rw [command, String.toList_append, String.toList_append, List.count_append, List.count_append,
    count_commandData hc, count_commandData hc, List.count_eq_zero.mpr hcommand,
    List.count_eq_zero.mpr hend] at hcount
  omega

theorem count_lt_append {c : Char} {behind : String} (before : String) (h : c ∈ behind.toList) :
    before.toList.count c < (before ++ behind).toList.count c := by
  rw [String.toList_append, List.count_append]
  exact Nat.lt_add_of_pos_right (List.count_pos_iff.mpr h)

/-- An address that both have makes no difference. -/
theorem not_shows_address {c : Char} (hc : c ∉ escapeChars) (hcommand : c ∉ "::error::".toList)
    {context before behind : String} (address : String)
    (h : context.toList.count c < before.toList.count c + behind.toList.count c) :
    ¬ Shows (command (context ++ address)) (commandData (before ++ address ++ behind)) := by
  refine not_shows_command hc hcommand ?_
  simp only [String.toList_append, List.count_append]
  omega

end Report

/-! ## Chains -/

namespace Run

open Report (Shows)

namespace Failure

/-- What the run was about to do, if the error that stopped it is wrapped into this. -/
def context? : Failure → Option String
  | configuration failure => some failure.message
  | manifest _ => none
  | noRequirement => none
  | catalog (.file path) _ => some ("Failed to load release catalog from " ++ path)
  | catalog (.url url) _ => some ("Failed to fetch release catalog from " ++ url)
  | matrix _ => none
  | output path _ => some ("Failed to open " ++ path)

/-- The message of the error that stopped the run. -/
def reason : Failure → String
  | configuration failure => failure.cause
  | manifest failure => failure.message
  | noRequirement => "composer.json does not declare a PHP requirement"
  | catalog _ failure => failure.message
  | matrix failure => failure.message
  | output _ cause => cause.message

/-- A chain begins with the context, or with the reason if there is none. -/
theorem message_eq (e : Failure) : e.message = e.context?.getD e.reason := by
  cases e with
  | catalog source => cases source <;> rfl
  | _ => rfl

/-- The reason is in the chain. -/
theorem reason_mem_chain (e : Failure) : e.reason ∈ e.message :: e.causes := by
  cases e with
  | configuration | catalog | output => exact List.mem_cons_of_mem _ (List.mem_cons_self ..)
  | manifest | noRequirement | matrix => exact List.mem_cons_self ..

end Failure

/-! ## Sources -/

/-- What can go wrong with a catalog from a source: a failure that names a source names this one. -/
inductive Prevents : CatalogSource → Catalog.Failure → Prop
  | request (url : String) : Prevents (.url url) .request
  | status (url : String) (code : Nat) : Prevents (.url url) (.status code url)
  | unreadable (path : String) (cause : FileError) :
      Prevents (.file path) (.unreadable path cause)
  | document (source : CatalogSource) (fault : Json.Fault) : Prevents source (.document fault)

/-- If it is about the catalog, it is about the source that is named in front of it. -/
def Failure.OfSource : Failure → Prop
  | .catalog source failure => Prevents source failure
  | _ => True

namespace Stage

variable {α β : Type} {P : Failure → Prop} {s : Stage α}

/-- If the stage fails, it is with such a failure. -/
def FailsWith (P : Failure → Prop) (s : Stage α) : Prop := ∀ e, s.result = .error e → P e

/-- A stage that does not fail. -/
theorem failsWith_of_ok {a : α} (h : s.result = .ok a) : s.FailsWith P := by
  intro e he
  rw [h] at he
  cases he

/-- A stage that fails in one way. -/
theorem failsWith_of_error {e : Failure} (h : s.result = .error e) (he : P e) :
    s.FailsWith P := by
  intro e' he'
  rw [h] at he'
  obtain rfl := Except.error.inj he'
  exact he

/-- **Stages in a row fail with what one of them fails with.** -/
theorem FailsWith.bind {next : α → Stage β} (h : s.FailsWith P)
    (hnext : ∀ a, (next a).FailsWith P) : (s >>= next).FailsWith P := by
  intro e he
  rw [result_bind] at he
  cases hresult : s.result with
  | error e' =>
    rw [hresult] at he
    obtain rfl := Except.error.inj he
    exact h _ hresult
  | ok a =>
    rw [hresult] at he
    exact hnext a e he

/-- A stage fails with what its failures are wrapped into. -/
theorem failsWith_mapError {ε : Type} {records : List Log.Record} {requests : Nat}
    {r : Except ε α} {wrap : ε → Failure} (h : ∀ failure, r = .error failure → P (wrap failure)) :
    FailsWith P ⟨records, requests, r.mapError wrap⟩ := by
  cases hr : r with
  | ok => exact failsWith_of_ok rfl
  | error failure => exact failsWith_of_error rfl (h failure hr)

end Stage

end Run

namespace Catalog

open Run (Prevents)

/-- A document can go wrong whatever source it is from. -/
theorem prevents_ofDocument {text : String} {failure : Failure} (source : CatalogSource)
    (h : ofDocument text = .error failure) : Prevents source failure := by
  unfold ofDocument at h
  split at h
  case h_1 => cases h
  case h_2 fault _ =>
    obtain rfl := Except.error.inj h
    exact .document source fault

/-- Loading a file fails by its path or by the document. -/
theorem prevents_loadFile {t : FileTree} {path : String} {failure : Failure}
    (h : loadFile t path = .error failure) : Prevents (.file path) failure := by
  unfold loadFile at h
  split at h
  case h_1 cause _ =>
    obtain rfl := Except.error.inj h
    exact .unreadable path cause
  case h_2 => exact prevents_ofDocument _ h

/-- An exchange fails by its URL or by the document. -/
theorem Exchange.Settles.prevents {url : String} {e : Exchange}
    {result : Except Failure (List Release)} (h : Settles url e result) {failure : Failure}
    (hresult : result = .error failure) : Prevents (.url url) failure := by
  cases h with
  | listed => cases hresult
  | malformed =>
    obtain rfl := Except.error.inj hresult
    exact .document _ _
  | broken | dropped =>
    obtain rfl := Except.error.inj hresult
    exact .request url
  | refused =>
    obtain rfl := Except.error.inj hresult
    exact .status url _

theorem prevents_fetch {p : Fetch.Patience} {service : Script} {url : String} {failure : Failure}
    (h : (Fetch.run p service url).result = .error failure) : Prevents (.url url) failure := by
  obtain ⟨last, hstops⟩ := Fetch.exists_stopsAt_run p service url
  exact hstops.settles.prevents h

end Catalog

namespace Run

variable {s : Surroundings} {c : CommandLine}

open Stage (failsWith_of_ok failsWith_of_error failsWith_mapError)

theorem failsWith_settings (t : FileTree) (c : CommandLine) :
    (settings t c).FailsWith Failure.OfSource := by
  refine .bind (failsWith_mapError fun _ _ => trivial) fun config? => ?_
  exact .bind (failsWith_of_ok rfl) fun _ => failsWith_of_ok rfl

/-- A declared requirement fails for its manifest. -/
theorem failsWith_declared (t : FileTree) (dir : String) :
    (declared t dir).FailsWith Failure.OfSource := by
  refine .bind (failsWith_mapError fun _ _ => trivial) fun text? => ?_
  cases text? with
  | some => exact failsWith_of_ok rfl
  | none => exact failsWith_of_error rfl trivial

/-- A requirement fails for its manifest, and only if it is not given. -/
theorem failsWith_requirement (t : FileTree) (c : CommandLine) :
    (requirement t c).FailsWith Failure.OfSource := by
  have hrest (text : String) : (do
      Stage.say (Journal.requirement text)
      return text : Stage String).FailsWith Failure.OfSource :=
    .bind (failsWith_of_ok rfl) fun _ => failsWith_of_ok rfl
  unfold requirement
  cases c.constraint with
  | some text => exact .bind (failsWith_of_ok rfl) hrest
  | none => exact .bind (failsWith_declared t c.workingDirectory) hrest

/-- The catalog stage fails for its own source, whichever it is. -/
theorem failsWith_releases (t : FileTree) (service : Catalog.Script) (source : CatalogSource) :
    (releases t service source).FailsWith Failure.OfSource := by
  cases source with
  | file path => exact failsWith_mapError fun _ => Catalog.prevents_loadFile
  | url url => exact failsWith_mapError fun _ => Catalog.prevents_fetch

/-- No stage of a report names another source. -/
theorem failsWith_report (s : Surroundings) (c : CommandLine) :
    (report s c).FailsWith Failure.OfSource := by
  refine .bind (failsWith_settings s.files c) fun settings => ?_
  refine .bind (failsWith_requirement s.files c) fun text => ?_
  refine .bind (failsWith_releases s.files s.service settings.catalog) fun releases => ?_
  refine .bind (failsWith_mapError fun _ _ => trivial) fun names => ?_
  refine .bind (failsWith_mapError fun _ _ => trivial) fun lowest => ?_
  exact .bind (failsWith_mapError fun _ _ => trivial) fun highest => failsWith_of_ok rfl

/-- Delivery is not about the catalog. -/
theorem failsWith_deliver (s : Surroundings) (format : Format) (r : Report) :
    (deliver s format r).FailsWith Failure.OfSource := by
  unfold deliver
  split
  case h_1 path _ =>
    cases happend : s.files.append path r.stepOutputs with
    | error => exact failsWith_of_error rfl trivial
    | ok => exact failsWith_of_ok rfl
  case h_2 => exact failsWith_of_ok rfl

/-- **A run that fails for its catalog names the source that it was to take the catalog from.** -/
theorem failsWith_stages (s : Surroundings) (c : CommandLine) :
    (stages s c).FailsWith Failure.OfSource :=
  .bind (failsWith_report s c) fun r => failsWith_deliver s c.format r

/-! ## Runs -/

open Report (Shows command commandData)

/-- In `github` format a failure is reported by the first message of its chain. -/
theorem stderr_of_github {e : Failure} (h : (stages s c).result = .error e)
    (hformat : c.format = .github) :
    (outcome s c).stderr = command (e.context?.getD e.reason) := by
  rw [outcome_of_error h, hformat, e.message_eq]
  rfl

/-- The URL in the context does not make up for the capital letter of the status. -/
theorem not_shows_status (code : Nat) (url : String) :
    ¬ Shows (command ("Failed to fetch release catalog from " ++ url))
      (commandData (Catalog.Failure.status code url).message) := by
  have hcontext : 'H' ∉ "Failed to fetch release catalog from ".toList := by decide
  have hstatus : 'H' ∈ ("HTTP " ++ code.repr ++ ": ").toList := by simp
  have hmessage : (Catalog.Failure.status code url).message =
      "HTTP " ++ code.repr ++ ": " ++ url ++ "" := String.append_empty.symm
  rw [hmessage]
  refine Report.not_shows_address (c := 'H') (by decide) (by decide) url ?_
  exact (List.count_eq_zero.mpr hcontext).trans_lt
    (Nat.add_pos_left (List.count_pos_iff.mpr hstatus) _)

theorem blank_mem_message (cause : FileError) : ' ' ∈ cause.message.toList := by
  cases cause <;> decide

/-- The path in the context does not make up for the blanks of what went wrong. -/
theorem not_shows_unreadable (path : String) (cause : FileError) :
    ¬ Shows (command ("Failed to load release catalog from " ++ path))
      (commandData (Catalog.Failure.unreadable path cause).message) := by
  have hmessage : (Catalog.Failure.unreadable path cause).message =
      "Failed to read release catalog " ++ path ++ (": " ++ cause.message) := String.append_assoc ..
  rw [hmessage]
  have hcontext : "Failed to load release catalog from ".toList.count ' ' =
      "Failed to read release catalog ".toList.count ' ' + ": ".toList.count ' ' := by
    decide +kernel
  refine Report.not_shows_address (c := ' ') (by decide) (by decide) path ?_
  exact hcontext.trans_lt
    (Nat.add_lt_add_left (Report.count_lt_append ": " (blank_mem_message cause)) _)

/-- **The reason of a failure is reported unless it is wrapped.**  In `json` and `text` format the
report of a failing run shows the reason word for word.  In `github` format it is a command with the
context, if there is one, and else with the reason; so without a context the reason is shown, in the
escaped spelling of a command.  With one it is dropped: when the catalog's service refuses a request
its status is not shown, and when the catalog's file cannot be read it is not shown why. -/
theorem shows_reason_unless_wrapped {e : Failure} (h : (stages s c).result = .error e) :
    (c.format ≠ .github → Shows (outcome s c).stderr e.reason) ∧
    (c.format = .github →
      (outcome s c).stderr = "::error::" ++ commandData (e.context?.getD e.reason) ++ "\n" ∧
      (e.context? = none → Shows (outcome s c).stderr (commandData e.reason)) ∧
      (∀ source code url, e = .catalog source (.status code url) →
        ¬ Shows (outcome s c).stderr (commandData e.reason)) ∧
      (∀ source path cause, e = .catalog source (.unreadable path cause) →
        ¬ Shows (outcome s c).stderr (commandData e.reason))) := by
  refine ⟨fun hformat => ?_, fun hformat => ?_⟩
  · rw [outcome_of_error h]
    exact Report.shows_failure s.color hformat e.reason_mem_chain
  · rw [stderr_of_github h hformat]
    refine ⟨rfl, fun hcontext => ?_, ?_, ?_⟩
    · rw [hcontext]
      exact Report.shows_between _ _ _
    · rintro source code url rfl
      -- the context has the same URL as the reason
      obtain rfl : source = .url url := by
        cases failsWith_stages s c _ h
        rfl
      exact not_shows_status code url
    · rintro source path cause rfl
      -- likewise the same path
      obtain rfl : source = .file path := by
        cases failsWith_stages s c _ h
        rfl
      exact not_shows_unreadable path cause

/-- The catalog's file is missing: the file is named, but not what is wrong with it. -/
theorem shows_reason_unless_wrapped_missing :
    let s : Surroundings := ⟨⟨fun _ => none, []⟩, fun _ => .dropped, none, false⟩
    let c : CommandLine :=
      ⟨".", some ">=8", ⟨none, none, none, none, some "c.json"⟩, .github, false⟩
    let e : Failure := .catalog (.file "c.json") (.unreadable "c.json" .notFound)
    (stages s c).result = .error e ∧
    (outcome s c).stderr =
      "::error::" ++ commandData "Failed to load release catalog from c.json" ++ "\n" ∧
    ¬ Shows (outcome s c).stderr (commandData e.reason) := by
  intro s c e
  have hfails : (stages s c).result = .error e := by
    unfold s c e
    rfl
  obtain ⟨hstderr, -, -, hunreadable⟩ := (shows_reason_unless_wrapped hfails).2 rfl
  exact ⟨hfails, hstderr, hunreadable _ _ _ rfl⟩

/-- The service answers 404: the report has the URL alone, though the error names the status too. -/
theorem drops_status_404 :
    let s : Surroundings := ⟨⟨fun _ => none, []⟩, fun _ => .answered 404 (some ""), none, false⟩
    let c : CommandLine :=
      ⟨".", some ">=8", ⟨none, none, none, some "http://localhost/", none⟩, .github, false⟩
    let e : Failure := .catalog (.url "http://localhost/") (.status 404 "http://localhost/")
    CommandLine.read ["--constraint", ">=8", "--catalog-url", "http://localhost/"] (fun _ => none) =
      .ok c ∧
    (stages s c).result = .error e ∧ e.reason = "HTTP 404: http://localhost/" ∧
    (outcome s c).stderr = "::error::Failed to fetch release catalog from http://localhost/\n" ∧
    ¬ Shows (outcome s c).stderr (commandData e.reason) := by
  intro s c e
  have hread : CommandLine.read ["--constraint", ">=8", "--catalog-url", "http://localhost/"]
      (fun _ => none) = .ok c := by
    rfl
  have hfails : (stages s c).result = .error e := by
    unfold s c e
    rfl
  have hcommand : command ("Failed to fetch release catalog from " ++ "http://localhost/") =
      "::error::Failed to fetch release catalog from http://localhost/\n" := by
    decide +kernel
  have hstderr := (stderr_of_github hfails rfl).trans hcommand
  refine ⟨hread, hfails, rfl, hstderr, ?_⟩
  rw [hstderr]
  decide +kernel

end Run
end ReleaseMatrix
