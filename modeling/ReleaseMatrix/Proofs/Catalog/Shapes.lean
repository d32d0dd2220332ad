/-
  The shapes of a catalog — three documents for one list of releases.

      [r, …]      {"data": [r, …]}      {"data": {"81": r, …}}

  Whichever is written, the releases that are read are those of the list, in its order.  An object
  of releases says the same as an array as long as each key stands once, for a later entry would
  take the place of an earlier one, and as long as every release has a name, for one without a name
  would take its key.

  1. **Releases** — `Release.ofJson?_toJson`: a release is read back from its document.
  2. **Keys** — `distinct_of_nodup`, `named_of_ne`: what a key could change, and here does not.
  3. **Documents** — `Lists`, in any layout (`shapes_list`).
-/
import ReleaseMatrix.Catalog
import ReleaseMatrix.Proofs.Json.Reading

namespace ReleaseMatrix

/-! ## Releases -/

namespace Release

/-- **A release is read back from its document.** -/
theorem ofJson?_toJson (r : Release) : ofJson? r.toJson = some r := by
  rfl

/-- The compact text of a release spells its document. -/
theorem spells_toJson (r : Release) (depth : Nat) :
    Json.Spells (depth + 1) r.toJson.text.toList r.toJson := by
  apply Json.spells_text_object
  intro m hm
  simp only [List.mem_cons, List.not_mem_nil, or_false] at hm
  rcases hm with rfl | rfl | rfl | rfl <;> simp [Json.Spells, Json.text]

end Release

namespace Catalog

/-! ## Keys -/

section Keys

variable {α : Type} {key : String} {value : α}

/-- A key that is new comes last. -/
theorem insert_of_not_mem {known : List (String × α)} (h : key ∉ known.map Prod.fst) :
    insert key value known = known ++ [(key, value)] := by
  induction known with
  | nil => rfl
  | cons entry known ih =>
    rw [List.map_cons, List.mem_cons, not_or] at h
    rw [insert, if_neg (Ne.symm h.1), ih h.2, List.cons_append]

/-- Entries whose keys are all different stay as they are. -/
theorem distinct_of_nodup {entries : List (String × α)} (h : (entries.map Prod.fst).Nodup) :
    distinct entries = entries := by
  have hfold (known rest : List (String × α)) (h : ((known ++ rest).map Prod.fst).Nodup) :
      rest.foldl (fun known entry => insert entry.1 entry.2 known) known = known ++ rest := by
    induction rest generalizing known with
    | nil => rw [List.foldl_nil, List.append_nil]
    | cons entry rest ih =>
      obtain ⟨key, value⟩ := entry
      -- no key repeats, so each entry goes to the end
      have hnew : key ∉ known.map Prod.fst := by
        rw [List.map_append, List.nodup_append] at h
        intro hmem
        exact h.2.2 key hmem key (by simp) rfl
      rw [List.foldl_cons]
      show rest.foldl _ (insert key value known) = _
      rw [insert_of_not_mem hnew, ih (known ++ [(key, value)]) (by simpa using h),
        List.append_assoc, List.singleton_append]
  exact hfold [] entries h

end Keys

/-- A release with a name keeps it. -/
theorem named_of_ne {r : Release} (h : r.name ≠ "") (key : String) : named key r = r := if_neg h

/-! ## Documents -/

/-- The releases in an array. -/
def bare (releases : List Release) : Json := .array (releases.map Release.toJson)

/-- The releases in an array below `data`. -/
def wrapped (releases : List Release) : Json := .object [("data", bare releases)]

/-- The releases in an object below `data`, each under a key. -/
def keyed (entries : List (String × Release)) : Json :=
  .object [("data", .object (entries.map (Prod.map id Release.toJson)))]

/-- Every text of the document is read as these releases, its compact text among them. -/
def Lists (document : Json) (releases : List Release) : Prop :=
  Json.Spelled document.text document ∧
    ∀ text, Json.Spelled text document → ofText text = .ok releases

/-- Written one by one, releases are read one by one. -/
theorem mapM_toJson (releases : List Release) :
    (releases.map Release.toJson).mapM Release.ofJson? = some releases := by
  induction releases with
  | nil => rfl
  | cons r releases ih =>
    rw [List.map_cons, List.mapM_cons, ih, Release.ofJson?_toJson]
    rfl

/-- They are so under keys too, whatever the keys are. -/
theorem mapM_members (entries : List (String × Release)) :
    (entries.map (Prod.map id Release.toJson)).mapM entry? = some entries := by
  induction entries with
  | nil => rfl
  | cons entry entries ih =>
    rw [List.map_cons, List.mapM_cons, ih]
    rfl

/-- **Keyed releases are listed in the order of the document**, if keys do not repeat and no name is
empty. -/
theorem ofJson?_keyed {entries : List (String × Release)} (hkeys : (entries.map Prod.fst).Nodup)
    (hnames : ∀ entry ∈ entries, entry.2.name ≠ "") :
    ofJson? (keyed entries) = some (entries.map Prod.snd) := by
  have hnamed : (entries.map fun entry => named entry.1 entry.2) = entries.map Prod.snd :=
    List.map_congr_left fun entry hentry => named_of_ne (hnames entry hentry) entry.1
  show (do
    let entries ← (entries.map (Prod.map id Release.toJson)).mapM entry?
    return (distinct entries).map fun entry : String × Release => named entry.1 entry.2) = _
  rw [mapM_members]
  show some ((distinct entries).map fun entry => named entry.1 entry.2) = _
  rw [distinct_of_nodup hkeys, hnamed]

/-- What a text is read as decides which releases it lists. -/
theorem ofText_of_reads {text : String} {v : Json} {releases : List Release}
    (htext : Json.Reads text v) (h : ofJson? v = some releases) : ofText text = .ok releases := by
  obtain ⟨rest, hvalue, hfinish⟩ := htext
  rw [ofText, hvalue]
  dsimp only [bind, Except.bind]
  rw [h]
  show (do Json.finish rest; return releases) = _
  rw [hfinish]
  rfl

/-- A document whose value is a list of releases lists them, however it is laid out. -/
theorem lists_of_ofJson? {document : Json} {releases : List Release}
    (hspells : Json.Spells Json.maxDepth document.text.toList document)
    (h : ofJson? document = some releases) : Lists document releases :=
  ⟨hspells.spelled, fun _ htext => ofText_of_reads (Json.reads_of_spelled htext) h⟩

/-- A bare list of releases is spelled by its text. -/
theorem spells_bare (releases : List Release) (depth : Nat) :
    Json.Spells (depth + 2) (bare releases).text.toList (bare releases) := by
  apply Json.spells_text_array
  intro v hv
  obtain ⟨r, -, rfl⟩ := List.mem_map.mp hv
  exact r.spells_toJson depth

/-- An object of one member is spelled by its compact text if the value is. -/
theorem spells_data {v : Json} {depth : Nat} (h : Json.Spells depth v.text.toList v) :
    Json.Spells (depth + 1) (Json.object [("data", v)]).text.toList (.object [("data", v)]) := by
  apply Json.spells_text_object
  intro m hm
  obtain rfl := List.mem_singleton.mp hm
  exact h

/-- A keyed document is spelled by its text. -/
theorem spells_keyed (entries : List (String × Release)) (depth : Nat) :
    Json.Spells (depth + 3) (keyed entries).text.toList (keyed entries) := by
  apply spells_data
  apply Json.spells_text_object
  intro m hm
  obtain ⟨entry, -, rfl⟩ := List.mem_map.mp hm
  exact entry.2.spells_toJson depth

/-- **A catalog means the same in each of its shapes.**  A list of releases, whatever their names
and flags, is read back from each of its documents, with nothing lost, added or moved: from the bare
array, from the array below `data`, and, if every release has a name, from the object below `data`
that puts them under keys which are all different. -/
theorem shapes_list (releases : List Release) :
    Lists (bare releases) releases ∧ Lists (wrapped releases) releases ∧
    ∀ keys : List String, keys.length = releases.length → keys.Nodup →
      (∀ r ∈ releases, r.name ≠ "") → Lists (keyed (keys.zip releases)) releases := by
  have hbare : ofJson? (bare releases) = some releases := mapM_toJson releases
  have hwrapped : ofJson? (wrapped releases) = some releases := mapM_toJson releases
  refine ⟨lists_of_ofJson? (spells_bare releases 125) hbare,
    lists_of_ofJson? (spells_data (spells_bare releases 124)) hwrapped, ?_⟩
  intro keys hlength hkeys hnames
  have hfst : (keys.zip releases).map Prod.fst = keys := List.map_fst_zip hlength.le
  have hsnd : (keys.zip releases).map Prod.snd = releases := List.map_snd_zip hlength.ge
  have hzip : ofJson? (keyed (keys.zip releases)) = some ((keys.zip releases).map Prod.snd) :=
    ofJson?_keyed (by rwa [hfst]) fun entry hentry => hnames _ (List.of_mem_zip hentry).2
  rw [hsnd] at hzip
  exact lists_of_ofJson? (spells_keyed _ 124) hzip

/-- Names with a quote, a backslash, a line break, a control character and one beyond the basic
plane; one of the keys is `data` again. -/
theorem shapes_list_escaped :
    let releases : List Release :=
      [⟨"8.1", false, false, true⟩, ⟨"\"8\\2\n\x01😀", true, true, false⟩]
    let keys := ["data", "81"]
    keys.length = releases.length ∧ keys.Nodup ∧ (∀ r ∈ releases, r.name ≠ "") ∧
    Lists (keyed (keys.zip releases)) releases := by
  intro releases keys
  have hkeys : keys.Nodup := by decide
  have hnames : ∀ r ∈ releases, r.name ≠ "" := by decide
  exact ⟨rfl, hkeys, hnames, (shapes_list releases).2.2 keys rfl hkeys hnames⟩

end Catalog
end ReleaseMatrix
