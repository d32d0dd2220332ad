/-
  Declared requirements — what a manifest asks of PHP, whatever else it says.

  A manifest is an object.  One of its members counts, and in this member one entry:

      {"name": {"vendor": "acme"}, "require": {"ext-json": "*", "php": "^8.1"}, "extra": [1, 2]}

  All other members are passed over, with any values at any depth; inside the section there may be
  entries of any sort.  The requirement is the string that is written there, each escape undone.  No
  section, a section of another shape, no such entry, or one of another type: then no requirement is
  declared, and that is no fault.

  1. **Manifests** — `IsManifest`, the texts of a list of members.
  2. **Requirements** — `Requires` of a section, `Declares` of the members.
  3. **Reading** — members are kept or passed over one by one (`keep`), so a text is read as its
     members say (`requirement?_of_isManifest`), up to `load_declared`.
-/
import ReleaseMatrix.Manifest.Load
import ReleaseMatrix.Proofs.Json.Reading

namespace ReleaseMatrix.Manifest

open Json (Care Fault IsGap Pair Writes)

/-! ## Manifests -/

/-- What may be written as the value of a member: the section is kept, one level down; the others
are passed over and nest as deeply as they like. -/
def Part (key : String) (cs : List Char) (v : Json) : Prop :=
  if key = "require" then Writes .exact (Json.maxDepth - 1) cs v
  else ∃ depth, Writes .skim depth cs v

/-- The text is an object of these members. -/
def IsManifest (text : String) (members : List (String × Json)) : Prop :=
  ∃ lead body trail, text.toList = lead ++ '\x7b' :: (body ++ '\x7d' :: trail) ∧ IsGap lead ∧
    Json.Body (Pair .exact Part) body members ∧ IsGap trail

/-! ## Requirements -/

/-- What a section requires of PHP, if anything. -/
inductive Requires : Json → Option String → Prop
  /-- The last of the entries for PHP is a string. -/
  | php {first rest : List (String × Json)} {s : String} (hrest : ∀ e ∈ rest, e.1 ≠ "php") :
      Requires (.object (first ++ ("php", .string s) :: rest)) (some s)
  /-- It is something else. -/
  | untyped {first rest : List (String × Json)} {v : Json} (hrest : ∀ e ∈ rest, e.1 ≠ "php")
      (hv : ∀ s, v ≠ .string s) : Requires (.object (first ++ ("php", v) :: rest)) none
  /-- There is none. -/
  | unlisted {entries : List (String × Json)} (h : ∀ e ∈ entries, e.1 ≠ "php") :
      Requires (.object entries) none
  /-- The section is no object. -/
  | shapeless {v : Json} (hv : ∀ entries, v ≠ .object entries) : Requires v none

/-- What the members of a manifest with at most one section require of PHP, if anything. -/
inductive Declares : List (String × Json) → Option String → Prop
  | once {before after : List (String × Json)} {v : Json} {r : Option String}
      (hbefore : ∀ m ∈ before, m.1 ≠ "require") (hafter : ∀ m ∈ after, m.1 ≠ "require")
      (hv : Requires v r) : Declares (before ++ ("require", v) :: after) r
  | never {members : List (String × Json)} (h : ∀ m ∈ members, m.1 ≠ "require") :
      Declares members none

/-! ## Entries of the section -/

/-- A key that no member has is not found. -/
theorem lookup_eq_none {key : String} {members : List (String × Json)}
    (h : ∀ m ∈ members, m.1 ≠ key) : members.lookup key = none := by
  rw [List.lookup_eq_none_iff]
  intro m hm
  exact bne_iff_ne.mpr (Ne.symm (h m hm))

/-- Behind the last entry of a key there are only other ones. -/
theorem lastMember?_of_last {key : String} {first rest : List (String × Json)} {v : Json}
    (hrest : ∀ e ∈ rest, e.1 ≠ key) :
    Json.lastMember? key (first ++ (key, v) :: rest) = some v := by
  have hnone : rest.reverse.lookup key = none :=
    lookup_eq_none fun e he => hrest e (List.mem_reverse.mp he)
  rw [Json.lastMember?, List.reverse_append, List.reverse_cons, List.append_assoc,
    List.lookup_append, hnone]
  simp

/-- What a section requires is what is read off it. -/
theorem phpOf_of_requires {v : Json} {r : Option String} (h : Requires v r) : phpOf v = r := by
  cases h with
  | php hrest =>
    rw [phpOf, lastMember?_of_last hrest]
    rfl
  | @untyped first rest v hrest hv =>
    rw [phpOf, lastMember?_of_last hrest]
    cases v with
    | string s => exact absurd rfl (hv s)
    | null | bool | number | array | object => rfl
  | unlisted h =>
    rw [phpOf, Json.lastMember?, lookup_eq_none fun e he => h e (List.mem_reverse.mp he)]
    rfl
  | shapeless hv =>
    cases v with
    | object entries => exact absurd rfl (hv entries)
    | null | bool | number | string | array => rfl

/-! ## Members of the manifest -/

/-- What a member does to the section that is known: a section is kept, and there must not be a
second one. -/
def keep (section? : Option Json) (m : String × Json) : Except Fault (Option Json) :=
  if m.1 = "require" then
    if section?.isSome then .error .unexpected else .ok (some m.2)
  else .ok section?

/-- **One member is read as it changes what is known**, and nothing else of it counts. -/
theorem readMember_of_pair {cs rest : List Char} {m : String × Json} (h : Pair .exact Part cs m)
    (hrest : Json.Breaks rest) (section? : Option Json) :
    readMember section? (cs ++ rest) = (keep section? m).map fun state => (state, rest) := by
  obtain ⟨atColon, gap, body, hkey, hcolon, hgap, hbody⟩ := h.reads rest
  rw [readMember, hkey]
  dsimp only [bind, Except.bind]
  by_cases hk : m.1 = "require"
  · rw [Part, if_pos hk] at hbody
    rw [if_pos hk, keep, if_pos hk]
    cases section? with
    | some v => rfl
    | none =>
      -- the value of the first section is read and kept
      have hvalue : readSection (gap ++ (body ++ rest)) = .ok (some m.2, rest) := by
        rw [readSection, Json.value_gap .exact _ hgap, Json.value_of_writes hbody hrest]
        rfl
      rw [hcolon]
      exact hvalue
  · -- any other member is passed over, and leaves what is known
    rw [Part, if_neg hk] at hbody
    obtain ⟨depth, hbody⟩ := hbody
    rw [if_neg hk, keep, if_neg hk, hcolon]
    dsimp only
    rw [Json.skip_of_writes hgap hbody hrest]
    rfl

/-- So the members of a manifest are readable one by one, with `keep` as their step. -/
theorem readable_members :
    Json.Readable (Pair .exact Part) '\x7d' readMember keep where
  reads section? cs m h rest hrest := readMember_of_pair h hrest section?
  ignores section? cs := by rw [readMember, readMember, Json.key_skipBlanks]
  opens cs m h := h.opens
  closes := by decide

/-- **A manifest is read as its members say**, one after the other. -/
theorem requirement?_of_isManifest {text : String} {members : List (String × Json)}
    (h : IsManifest text members) :
    requirement? text = (members.foldlM keep none).map fun section? => section?.bind phpOf := by
  obtain ⟨lead, body, trail, htext, hlead, hbody, htrail⟩ := h
  have hskip : Json.skipBlanks text.toList = '\x7b' :: (body ++ '\x7d' :: trail) := by
    rw [htext, Json.skipBlanks_gap hlead, Json.skipBlanks_cons (by decide)]
  have hread : read text.toList =
      (members.foldlM keep none).map fun section? => (section?, trail) := by
    rw [read, hskip]
    exact readable_members.entries_body hbody none trail
  rw [requirement?, hread]
  cases members.foldlM keep none with
  | error fault => rfl
  | ok section? =>
    show (do Json.finish trail; return section?.bind phpOf) = _
    rw [Json.finish_gap htrail]
    rfl

/-- Members without a section leave what is known. -/
theorem foldlM_keep_of_ne {members : List (String × Json)} (h : ∀ m ∈ members, m.1 ≠ "require")
    (section? : Option Json) : members.foldlM keep section? = .ok section? := by
  induction members with
  | nil => rfl
  | cons m members ih =>
    obtain ⟨hm, hmembers⟩ := List.forall_mem_cons.mp h
    rw [List.foldlM_cons, keep, if_neg hm]
    exact ih hmembers

theorem foldlM_keep_once {before after : List (String × Json)} {v : Json}
    (hbefore : ∀ m ∈ before, m.1 ≠ "require") (hafter : ∀ m ∈ after, m.1 ≠ "require") :
    (before ++ ("require", v) :: after).foldlM keep none = .ok (some v) := by
  rw [List.foldlM_append, foldlM_keep_of_ne hbefore]
  exact foldlM_keep_of_ne hafter (some v)

/-- **The requirement is what the manifest declares.**  Whatever stands around it, a manifest is read
as its section says: the last string for PHP, character for character, or else nothing; and this is
never a failure. -/
theorem load_declared {t : FileTree} {path text : String} {members : List (String × Json)}
    {r : Option String} (hread : t.readText path = .ok text) (htext : IsManifest text members)
    (hmembers : Declares members r) : load t path = .ok r := by
  have hrequirement : requirement? text = .ok r := by
    rw [requirement?_of_isManifest htext]
    cases hmembers with
    | once hbefore hafter hv =>
      rw [foldlM_keep_once hbefore hafter]
      exact congrArg Except.ok (phpOf_of_requires hv)
    | never h =>
      rw [foldlM_keep_of_ne h]
      rfl
  rw [load, hread]
  dsimp only
  rw [hrequirement]

/-- A manifest with a lone surrogate in a member that is passed over, a number under the first of
two keys for PHP, and an escape under the second. -/
def mixed : String :=
  "\x7b \"x\": [\"\\ud800\", -1.5e3] ,\"require\":\x7b\"php\":8.1,\"php\":\"\\u005e8.1\"\x7d,\"n\":null\x7d"

/-- The members of that manifest. -/
def mixedMembers : List (String × Json) :=
  [("x", .array [.string "\uFFFD", .number "-1.5e3"]),
    ("require", .object [("php", .number "8.1"), ("php", .string "^8.1")]), ("n", .null)]

/-- It is a manifest: each member is spelled by the grammar. -/
theorem isManifest_mixed : IsManifest mixed mixedMembers := by
  have hnil : IsGap [] := Json.isGap_nil
  have hblank : IsGap [' '] := by simp [IsGap, Json.isBlank]
  have hdigit {d : Char} (hd : d.isDigit = true) : Json.IsDigits [d] :=
    ⟨List.cons_ne_nil _ _, fun c hc => by rwa [List.mem_singleton.mp hc]⟩
  have hx : Pair .exact Part "\"x\": [\"\\ud800\", -1.5e3]".toList
      ("x", .array [.string "\uFFFD", .number "-1.5e3"]) := by
    have hstring : Writes .skim 0 "\"\\ud800\"".toList (.string "\uFFFD") :=
      ⟨_, rfl, .cons (@Json.Spelling.half _ _ 0xD800 rfl ⟨'d', '8', '0', '0', rfl, by decide⟩
        (by decide)) .nil⟩
    have hnumber : Writes .skim 0 "-1.5e3".toList (.number "-1.5e3") :=
      ⟨rfl, @Json.Numeral.parts .skim ['-'] ['1'] ['.', '5'] ['5'] ['e', '3'] 3 (.inr rfl)
        ⟨hdigit rfl, by decide⟩ (.digits (hdigit rfl))
        (@Json.Exponent.power 'e' [] ['3'] false (.inl rfl) .absent (hdigit rfl))
        (fun h => absurd h (by decide))⟩
    exact ⟨_, [], [' '], _, rfl, Json.quoted_quote .exact "x", hnil, hblank, 1, _, rfl,
      .inr (.cons hnil hstring hnil (.last hblank hnumber hnil))⟩
  have hrequire : Pair .exact Part "\"require\":\x7b\"php\":8.1,\"php\":\"\\u005e8.1\"\x7d".toList
      ("require", .object [("php", .number "8.1"), ("php", .string "^8.1")]) := by
    have hnumber : Writes .exact 125 "8.1".toList (.number "8.1") :=
      ⟨rfl, @Json.Numeral.parts .exact [] ['8'] ['.', '1'] ['1'] [] 0 (.inl rfl)
        ⟨hdigit rfl, by decide⟩ (.digits (hdigit rfl)) .absent
        (fun _ => by decide)⟩
    have hstring : Writes .exact 125 "\"\\u005e8.1\"".toList (.string "^8.1") :=
      ⟨_, rfl, .cons (@Json.Spelling.unit _ _ 0x5E ⟨'0', '0', '5', 'e', rfl, by decide⟩ (by decide))
        (.cons (.plain (by decide) (by decide) (by decide))
          (.cons (.plain (by decide) (by decide) (by decide))
            (.cons (.plain (by decide) (by decide) (by decide)) .nil)))⟩
    have hphp := Json.quoted_quote .exact "php"
    exact ⟨_, [], [], _, rfl, Json.quoted_quote .exact "require", hnil, hnil, _, rfl,
      .inr (.cons hnil ⟨_, [], [], _, rfl, hphp, hnil, hnil, hnumber⟩ hnil
        (.last hnil ⟨_, [], [], _, rfl, hphp, hnil, hnil, hstring⟩ hnil))⟩
  have hn : Pair .exact Part "\"n\":null".toList ("n", .null) :=
    ⟨_, [], [], _, rfl, Json.quoted_quote .exact "n", hnil, hnil, 0, rfl⟩
  exact ⟨[], _, [], rfl, hnil,
    .inr (.cons hblank hx hblank (.cons hnil hrequire hnil (.last hnil hn hnil))), hnil⟩

/-- Of all that stands in this manifest, the string under the last key for PHP is what counts. -/
theorem load_declared_mixed :
    let t : FileTree :=
      ⟨fun l => if l = [fileName] then some (.file mixed.toUTF8) else some .directory, []⟩
    t.readText fileName = .ok mixed ∧ IsManifest mixed mixedMembers ∧
      Declares mixedMembers (some "^8.1") ∧ load t fileName = .ok (some "^8.1") := by
  intro t
  have hread : t.readText fileName = .ok mixed := by rfl
  have hdeclares : Declares mixedMembers (some "^8.1") :=
    @Declares.once [("x", _)] [("n", _)] _ _ (by decide) (by decide)
      (@Requires.php [("php", _)] [] "^8.1" (by simp))
  exact ⟨hread, isManifest_mixed, hdeclares, load_declared hread isManifest_mixed hdeclares⟩

end ReleaseMatrix.Manifest
