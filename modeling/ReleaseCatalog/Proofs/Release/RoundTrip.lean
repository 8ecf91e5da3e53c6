import ReleaseCatalog.Release.Document
import ReleaseCatalog.Proofs.Json.Codec
import ReleaseCatalog.Proofs.Time.RoundTrip

namespace ReleaseCatalog

open Json (IsCodec isCodec_text isCodec_word32 isCodec_word64 isPlain_record record_ne_null
  fieldsAll_append fieldsAll_ifPresent names_record fields?_record lookup_ifPresent
  ifPresent_names_sublist)

theorem isCodec_instant : IsCodec Instant.toJson Instant.ofJson? where
  isPlain _ := trivial
  ne_null _ := Json.noConfusion
  read_write t := by
    show (some t.print).bind Instant.parse? = some t
    rw [Option.bind_some, Instant.parse?_print]

/-- A vocabulary whose words tell its terms apart. -/
class LawfulVocabulary (α : Type) [Vocabulary α] : Prop where
  ofWord?_word : ∀ a : α, Vocabulary.ofWord? (Vocabulary.word a) = some a

instance : LawfulVocabulary ReleaseKind where
  ofWord?_word a := by
    cases a <;> decide

instance : LawfulVocabulary Vendor where
  ofWord?_word a := by
    cases a <;> decide

instance : LawfulVocabulary OperatingSystem where
  ofWord?_word a := by
    cases a <;> decide

instance : LawfulVocabulary Architecture where
  ofWord?_word a := by
    cases a <;> decide

instance : LawfulVocabulary ImageType where
  ofWord?_word a := by
    cases a <;> decide

instance : LawfulVocabulary JvmVariant where
  ofWord?_word a := by
    cases a <;> decide

instance : LawfulVocabulary HeapSize where
  ofWord?_word a := by
    cases a <;> decide

instance : LawfulVocabulary Project where
  ofWord?_word a := by
    cases a <;> decide

theorem isCodec_vocabulary (α : Type) [Vocabulary α] [LawfulVocabulary α] :
    IsCodec (Vocabulary.toJson : α → Json) Vocabulary.ofJson? where
  isPlain _ := trivial
  ne_null _ := Json.noConfusion
  read_write := LawfulVocabulary.ofWord?_word

theorem Package.names_sublist (p : Package) :
    p.toJson.names.Sublist ["name", "link", "size", "checksum", "signature_link"] := by
  rw [Package.toJson, names_record]
  simp only [List.map_append]
  exact ((List.Sublist.refl _).append (ifPresent_names_sublist ..)).append
    (ifPresent_names_sublist ..)

theorem isCodec_package : IsCodec Package.toJson Package.ofJson? where
  isPlain p := by
    rw [Package.toJson, isPlain_record]
    simp [isCodec_text.isPlain, isCodec_word64.isPlain, fieldsAll_append, fieldsAll_ifPresent]
  ne_null _ := record_ne_null _
  read_write p := by
    rw [Package.ofJson?, Package.toJson, fields?_record p.names_sublist (by decide)]
    simp [List.lookup_append, List.lookup_cons, lookup_ifPresent, isCodec_text.required,
      isCodec_text.optional, isCodec_word64.required]

theorem SourcePackage.names_sublist (p : SourcePackage) :
    p.toJson.names.Sublist ["name", "link", "size"] := by
  rw [SourcePackage.toJson, names_record]
  exact List.Sublist.refl _

theorem isCodec_sourcePackage : IsCodec SourcePackage.toJson SourcePackage.ofJson? where
  isPlain p := by
    rw [SourcePackage.toJson, isPlain_record]
    simp [isCodec_text.isPlain, isCodec_word64.isPlain]
  ne_null _ := record_ne_null _
  read_write p := by
    rw [SourcePackage.ofJson?, SourcePackage.toJson, fields?_record p.names_sublist (by decide)]
    simp [List.lookup_cons, isCodec_text.required, isCodec_word64.required]

theorem Version.names_sublist (v : Version) :
    v.toJson.names.Sublist ["major", "minor", "security", "pre", "patch",
      "additional_build_number", "build", "optional", "semver"] := by
  rw [Version.toJson, names_record]
  simp only [List.map_append]
  exact ((((((List.Sublist.refl _).append (ifPresent_names_sublist ..)).append
    (ifPresent_names_sublist ..)).append (ifPresent_names_sublist ..)).append
    (List.Sublist.refl _)).append (ifPresent_names_sublist ..)).append (List.Sublist.refl _)

theorem isCodec_version : IsCodec Version.toJson Version.ofJson? where
  isPlain v := by
    rw [Version.toJson, isPlain_record]
    simp [isCodec_text.isPlain, isCodec_word32.isPlain, fieldsAll_append, fieldsAll_ifPresent]
  ne_null _ := record_ne_null _
  read_write v := by
    rw [Version.ofJson?, Version.toJson, fields?_record v.names_sublist (by decide)]
    simp [List.lookup_append, List.lookup_cons, lookup_ifPresent, isCodec_text.required,
      isCodec_text.optional, isCodec_word32.required, isCodec_word32.optional,
      isCodec_word32.defaulted]

theorem Binary.names_sublist (b : Binary) :
    b.toJson.names.Sublist ["os", "architecture", "image_type", "jvm_impl", "heap_size", "project",
      "updated_at", "download_count", "package"] := by
  rw [Binary.toJson, names_record]
  exact List.Sublist.refl _

theorem isCodec_binary : IsCodec Binary.toJson Binary.ofJson? where
  isPlain b := by
    rw [Binary.toJson, isPlain_record]
    simp [(isCodec_vocabulary _).isPlain, isCodec_instant.isPlain, isCodec_word64.isPlain,
      isCodec_package.isPlain]
  ne_null _ := record_ne_null _
  read_write b := by
    rw [Binary.ofJson?, Binary.toJson, fields?_record b.names_sublist (by decide)]
    simp [List.lookup_cons, (isCodec_vocabulary _).required, (isCodec_vocabulary _).defaulted,
      isCodec_instant.required, isCodec_word64.defaulted, isCodec_package.required]

theorem Release.names_sublist (r : Release) :
    r.toJson.names.Sublist ["id", "release_type", "release_name", "release_link", "timestamp",
      "updated_at", "vendor", "version_data", "download_count", "binaries", "source"] := by
  rw [Release.toJson, names_record]
  simp only [List.map_append]
  exact (List.Sublist.refl _).append (ifPresent_names_sublist ..)

theorem isCodec_release : IsCodec Release.toJson Release.ofJson? where
  isPlain r := by
    rw [Release.toJson, isPlain_record]
    simp [isCodec_text.isPlain, (isCodec_vocabulary _).isPlain, isCodec_instant.isPlain,
      isCodec_version.isPlain, isCodec_word64.isPlain, isCodec_binary.list.isPlain,
      isCodec_sourcePackage.isPlain, fieldsAll_append, fieldsAll_ifPresent]
  ne_null _ := record_ne_null _
  read_write r := by
    rw [Release.ofJson?, Release.toJson, fields?_record r.names_sublist (by decide)]
    simp [List.lookup_cons, lookup_ifPresent, isCodec_text.required,
      (isCodec_vocabulary _).required, isCodec_instant.required, isCodec_version.required,
      isCodec_word64.defaulted, isCodec_binary.list.required, isCodec_sourcePackage.optional]

/-- A release is read back from its document as it was written. -/
theorem Release.parse?_print (r : Release) : Release.parse? r.print = some r :=
  isCodec_release.parse?_print r

end ReleaseCatalog
