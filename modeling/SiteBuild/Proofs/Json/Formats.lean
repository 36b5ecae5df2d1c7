import SiteBuild.Manifest
import SiteBuild.Options
import SiteBuild.Proofs.Json.Reading
import SiteBuild.Proofs.Table

/-! Manifests, namings and configurations are read as they were written, also where a field was left
out. -/

namespace SiteBuild

namespace Json

/-! ## Records -/

theorem mapM_ok {ε α β : Type} {f : α → Except ε β} {g : α → β} {l : List α}
    (h : ∀ a ∈ l, f a = .ok (g a)) : l.mapM f = .ok (l.map g) := by
  induction l with
  | nil => rfl
  | cons a l ih =>
    obtain ⟨ha, hl⟩ := List.forall_mem_cons.1 h
    rw [List.mapM_cons, ha, ih hl]
    rfl

/-- The members of an object with some fields, each where it is given. -/
def given (fs : List (String × Option Json)) : List (Option String × Json) :=
  fs.flatMap fun f => f.2.elim [] fun v => [(some f.1, v)]

theorem mem_given {fs : List (String × Option Json)} {m : Option String × Json} :
    m ∈ given fs ↔ ∃ f ∈ fs, ∃ v ∈ f.2, m = (some f.1, v) := by
  simp only [given, List.mem_flatMap]
  refine exists_congr fun f => and_congr_right fun _ => ?_
  cases f.2 <;> simp

theorem memberNames_given (fs : List (String × Option Json)) :
    memberNames (given fs) = .ok ((given fs).map fun m => m.1.getD "") := by
  refine mapM_ok fun m hm => ?_
  obtain ⟨f, -, v, -, rfl⟩ := mem_given.1 hm
  rfl

theorem given_names_sublist (fs : List (String × Option Json)) :
    ((given fs).map fun m => m.1.getD "").Sublist (fs.map Prod.fst) := by
  induction fs with
  | nil => exact .slnil
  | cons f fs ih =>
    obtain ⟨name, v⟩ := f
    cases v with
    | none => exact ih.cons name
    | some v => exact ih.cons_cons name

theorem find?_given {fs : List (String × Option Json)} (h : (fs.map Prod.fst).Nodup)
    {f : String × Option Json} (hf : f ∈ fs) :
    ((given fs).find? fun m => m.1 = some f.1).map Prod.snd = f.2 := by
  induction fs with
  | nil => cases hf
  | cons g fs ih =>
    obtain ⟨hg, hfs⟩ := List.nodup_cons.1 h
    have hcons : given (g :: fs) = g.2.elim [] (fun v => [(some g.1, v)]) ++ given fs := rfl
    rw [hcons, List.find?_append]
    rcases List.mem_cons.1 hf with rfl | hf
    · have hnone : ((given fs).find? fun m => m.1 = some f.1) = none := by
        refine List.find?_eq_none.2 fun m hm he => hg ?_
        obtain ⟨f', hf', v, -, rfl⟩ := mem_given.1 hm
        exact List.mem_map.2 ⟨f', hf', by simpa using he⟩
      obtain ⟨name, v⟩ := f
      cases v <;> simp [hnone]
    · have hne : g.1 ≠ f.1 := fun he => hg (he ▸ List.mem_map_of_mem hf)
      have hskip : (g.2.elim [] fun v => [(some g.1, v)]).find? (fun m => m.1 = some f.1) = none := by
        cases g.2 <;> simp [hne]
      rw [hskip]
      exact ih hfs hf

/-- An object with some fields, each where it is given. -/
def record (names : List String) (values : List (Option Json)) : Json :=
  .object (given (names.zip values))

theorem IsPlain.record {names : List String} {values : List (Option Json)}
    (h : ∀ o ∈ values, ∀ v ∈ o, v.IsPlain) : (Json.record names values).IsPlain := by
  refine .object (fun m hm => ?_) fun m hm => ?_
  all_goals obtain ⟨f, hf, v, hv, rfl⟩ := mem_given.1 hm
  · rfl
  · exact h f.2 (List.of_mem_zip hf).2 v hv

/-- The fields of a record are read as they were put in. -/
theorem fields_record {names : List String} {values : List (Option Json)} (complete : Bool)
    (hlength : names.length = values.length) (h : names.Nodup) :
    fields names complete (record names values) = .ok values := by
  set fs := names.zip values with hfs
  have hnames : fs.map Prod.fst = names := List.map_fst_zip (Nat.le_of_eq hlength)
  have hvalues : fs.map Prod.snd = values := List.map_snd_zip (Nat.le_of_eq hlength.symm)
  have honce : names.find? (fun name =>
      1 < ((given fs).map fun m => m.1.getD "").count name) = none := by
    refine List.find?_eq_none.2 fun name _ hcount => ?_
    have := List.nodup_iff_count_le_one.1 ((given_names_sublist fs).nodup (hnames ▸ h)) name
    simp only [decide_eq_true_eq] at hcount
    omega
  have hfound : names.map (fun name =>
      ((given fs).find? fun m => m.1 = some name).map Prod.snd) = values := by
    rw [← hvalues, ← hnames, List.map_map]
    exact List.map_congr_left fun f hf => find?_given (hnames ▸ h) hf
  simp only [fields, record, ← hfs, memberNames_given, bind, Except.bind, honce, hfound]
  rfl

/-! ## Values of fields -/

theorem asOption_of_ne_null {α : Type} {value : Decoder α} {v : Json} {a : α} (hv : v ≠ .null)
    (h : value v = .ok a) : asOption value v = .ok (some a) := by
  cases v with
  | null => exact absurd rfl hv
  | _ => simp [asOption, h, Except.map]

/-- A field that may be missing is read as it was written. -/
theorem withDefault_asOption {α : Type} {value : Decoder α} {write : α → Json} {o : Option α}
    (h : ∀ a ∈ o, write a ≠ .null ∧ value (write a) = .ok a) :
    withDefault none (asOption value) (o.map write) = .ok o := by
  cases o with
  | none => rfl
  | some a => exact asOption_of_ne_null (h a rfl).1 (h a rfl).2

theorem asList_array {α : Type} {value : Decoder α} (write : α → Json)
    (h : ∀ a, value (write a) = .ok a) (as : List α) :
    asList value (.array (as.map write)) = .ok as := by
  have hall : as.mapM (fun a => value (write a)) = .ok (as.map id) := mapM_ok fun a _ => h a
  rw [asList, List.mapM_map]
  rwa [List.map_id] at hall

theorem asCount_number {n : Nat} (h : n < UInt64.size) :
    asCount (.number (toString n)) = .ok n := by
  have hdigits : (toString n).toList = Nat.toDigits 10 n := by
    rw [Nat.toString_eq_repr, Nat.repr_eq_ofList_toDigits, String.toList_ofList]
  have hall : (Nat.toDigits 10 n).all Char.isDigit := List.all_eq_true.2 isDigit_toDigits
  have hvalue : Text.decimalValue (Nat.toDigits 10 n) = n :=
    Nat.ofDigitChars_toDigits (by decide) (by decide)
  simp only [asCount, hdigits, hall, hvalue, h]
  rfl

theorem asTable_object {α : Type} {value : Decoder α} {write : α → Json}
    (h : ∀ a, value (write a) = .ok a) (t : Table String α) :
    asTable value (.object (t.entries.map fun e => (some e.1, write e.2))) = .ok t := by
  have hnames : memberNames (t.entries.map fun e => (some e.1, write e.2)) = .ok t.keys := by
    rw [memberNames, List.mapM_map]
    exact mapM_ok fun _ _ => rfl
  have hvalues : (t.entries.map fun e => ((some e.1 : Option String), write e.2)).mapM
      (fun m => value m.2) = .ok (t.entries.map Prod.snd) := by
    rw [List.mapM_map]
    exact mapM_ok fun e _ => h e.2
  have hzip : t.keys.zip (t.entries.map Prod.snd) = t.entries := by
    simp [Table.keys, ← List.unzip_fst, ← List.unzip_snd, List.zip_unzip]
  simp only [asTable, hnames, hvalues, bind, Except.bind, hzip, Table.ofList_entries]
  rfl

theorem isPlain_texts (ss : List String) : (Json.array (ss.map .text)).IsPlain :=
  .array (List.forall_mem_map.2 fun s _ => .text s)

theorem asList_texts (ss : List String) : asList asText (.array (ss.map .text)) = .ok ss :=
  asList_array .text (fun _ => rfl) ss

end Json

/-! ## Formats -/

namespace ManifestCss

theorem toJson_eq (c : ManifestCss) :
    c.toJson = .record ["actual", "proxy"] [some (.text c.actual), some (.text c.proxy)] := rfl

theorem isPlain_toJson (c : ManifestCss) : c.toJson.IsPlain := by
  rw [toJson_eq]
  exact .record (by simp [Json.IsPlain.text])

theorem ofJson_toJson (c : ManifestCss) : ofJson c.toJson = .ok c := by
  rw [toJson_eq, ofJson, Json.fields_record true rfl (by decide)]
  rfl

end ManifestCss

namespace Manifest

theorem fileToJson_eq (css : List ManifestCss) :
    fileToJson css = .record ["css"] [if css.isEmpty then none else
      some (.array (css.map ManifestCss.toJson))] := by
  cases css <;> rfl

theorem isPlain_fileToJson (css : List ManifestCss) : (fileToJson css).IsPlain := by
  have hcss : (Json.array (css.map ManifestCss.toJson)).IsPlain :=
    .array (List.forall_mem_map.2 fun c _ => c.isPlain_toJson)
  rw [fileToJson_eq]
  cases css with
  | nil => exact .record (by simp)
  | cons c css => exact .record (by simpa using hcss)

theorem fileOfJson_fileToJson (css : List ManifestCss) : fileOfJson (fileToJson css) = .ok css := by
  have hcss : Json.asList ManifestCss.ofJson (.array (css.map ManifestCss.toJson)) = .ok css :=
    Json.asList_array _ ManifestCss.ofJson_toJson css
  rw [fileToJson_eq, fileOfJson, Json.fields_record false rfl (by decide)]
  cases css with
  | nil => rfl
  | cons c css => exact hcss

theorem toJson_eq (m : Manifest) :
    m.toJson = .record ["imports", "generated"]
      [some (.object (m.imports.entries.map fun e => (some e.1, fileToJson e.2))),
        some (.array (m.generated.map .text))] := rfl

theorem isPlain_toJson (m : Manifest) : m.toJson.IsPlain := by
  have himports : (Json.object
      (m.imports.entries.map fun e => (some e.1, fileToJson e.2))).IsPlain :=
    .object (List.forall_mem_map.2 fun _ _ => rfl)
      (List.forall_mem_map.2 fun e _ => isPlain_fileToJson e.2)
  rw [toJson_eq]
  exact .record (by simp [himports, Json.isPlain_texts])

theorem ofJson_toJson (m : Manifest) : ofJson m.toJson = .ok m := by
  have himports : Json.asTable fileOfJson
      (.object (m.imports.entries.map fun e => (some e.1, fileToJson e.2))) = .ok m.imports :=
    Json.asTable_object fileOfJson_fileToJson m.imports
  rw [toJson_eq, ofJson, Json.fields_record true rfl (by decide)]
  simp only [bind, Except.bind, Json.required, himports, Json.asList_texts]
  rfl

theorem parse_toText (m : Manifest) : parse m.toText = .ok m := by
  rw [parse, toText, Json.parse_toText m.isPlain_toJson]
  exact m.ofJson_toJson

end Manifest

namespace Naming

theorem toJson_eq (n : Naming) :
    n.toJson = .record fieldNames
      [some (.text n.proxySuffix), some (.text n.cssExtension), some (.text n.moduleMarker)] := rfl

theorem isPlain_toJson (n : Naming) : n.toJson.IsPlain := by
  rw [toJson_eq]
  exact .record (by simp [Json.IsPlain.text])

theorem ofJson_toJson (n : Naming) : ofJson n.toJson = .ok n := by
  rw [toJson_eq, ofJson, Json.fields_record false rfl (by decide)]
  rfl

end Naming

namespace Config

theorem member_eq {α : Type} (name : String) (write : α → Json) (o : Option α) :
    member name write o = (o.map write).elim [] fun v => [(some name, v)] := by
  cases o <;> rfl

theorem toJson_eq (c : Config) :
    c.toJson = .record Options.fieldNames
      [c.minifyScripts.map .bool, c.minifyPages.map .bool, c.minifyStyles.map .bool,
        c.preloadModules.map .bool, c.combinedName.map .text,
        c.exclude.map fun es => .array (es.map .text),
        c.concurrency.map fun n => .number (toString n), c.naming.map Naming.toJson] := by
  simp [toJson, member_eq, Json.record, Json.given, Options.fieldNames]

theorem isPlain_toJson (c : Config) : c.toJson.IsPlain := by
  have hmap {α : Type} {write : α → Json} (h : ∀ a, (write a).IsPlain) (o : Option α) :
      ∀ v ∈ o.map write, v.IsPlain := by
    cases o <;> simp [h]
  rw [toJson_eq]
  refine .record ?_
  simp only [List.forall_mem_cons]
  exact ⟨hmap .bool _, hmap .bool _, hmap .bool _, hmap .bool _, hmap .text _,
    hmap Json.isPlain_texts _, hmap .count _, hmap Naming.isPlain_toJson _, by simp⟩

theorem ofJson_toJson {c : Config} (h : ∀ n ∈ c.concurrency, n < 2 ^ 64) :
    ofJson c.toJson = .ok c := by
  have hbool (o : Option Bool) : Json.withDefault none (Json.asOption Json.asBool) (o.map .bool) =
      .ok o := Json.withDefault_asOption fun _ _ => ⟨nofun, rfl⟩
  have hcombined : Json.withDefault none (Json.asOption Json.asText) (c.combinedName.map .text) =
      .ok c.combinedName := Json.withDefault_asOption fun _ _ => ⟨nofun, rfl⟩
  have hexclude : Json.withDefault none (Json.asOption (Json.asList Json.asText))
      (c.exclude.map fun es => .array (es.map .text)) = .ok c.exclude :=
    Json.withDefault_asOption fun es _ => ⟨nofun, Json.asList_texts es⟩
  have hconcurrency : Json.withDefault none (Json.asOption Json.asCount)
      (c.concurrency.map fun n => .number (toString n)) = .ok c.concurrency :=
    Json.withDefault_asOption fun n hn => ⟨nofun, Json.asCount_number (h n hn)⟩
  have hnaming : Json.withDefault none (Json.asOption Naming.ofJson) (c.naming.map Naming.toJson) =
      .ok c.naming := Json.withDefault_asOption fun n _ => ⟨nofun, n.ofJson_toJson⟩
  rw [toJson_eq, ofJson, Json.fields_record true rfl (by decide)]
  simp only [bind, Except.bind, hbool, hcombined, hexclude, hconcurrency, hnaming]
  rfl

end Config

/-- What is kept between runs is read as it was written: manifests, namings and configurations. -/
theorem formats_roundTrip :
    (∀ m : Manifest, Manifest.parse m.toText = .ok m) ∧
      (∀ n : Naming, (Json.parse n.toJson.toText >>= Naming.ofJson) = .ok n) ∧
      ∀ c : Config, (∀ n ∈ c.concurrency, n < 2 ^ 64) → Config.parse c.toJson.toText = .ok c := by
  refine ⟨Manifest.parse_toText, fun n => ?_, fun c hc => ?_⟩
  · rw [Json.parse_toText n.isPlain_toJson]
    exact n.ofJson_toJson
  · rw [Config.parse, Json.parse_toText c.isPlain_toJson]
    exact Config.ofJson_toJson hc

theorem formats_roundTrip_largest :
    (2 ^ 64 - 1 < 2 ^ 64) ∧
      Config.parse (Config.toJson { concurrency := some (2 ^ 64 - 1), naming := some {} }).toText =
        .ok { concurrency := some (2 ^ 64 - 1), naming := some {} } :=
  ⟨by decide, formats_roundTrip.2.2 _ fun n hn => by cases hn; decide⟩

end SiteBuild
