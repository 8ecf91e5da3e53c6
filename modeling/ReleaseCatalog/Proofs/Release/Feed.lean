import ReleaseCatalog.Release.Feed
import ReleaseCatalog.Proofs.Json.Spacing
import ReleaseCatalog.Proofs.Json.Whole
import ReleaseCatalog.Proofs.Release.RoundTrip

namespace ReleaseCatalog

open Json (IsKept Gap Spaced isKept_text isKept_word32 isKept_word64 isKept_array
  isKept_record fieldsAll_append fieldsAll_ifPresent spacedArray)

theorem isKept_instant (d : Nat) (t : Instant) : IsKept d t.toJson :=
  isKept_text d t.print

theorem isKept_vocabulary {α : Type} [Vocabulary α] (d : Nat) (a : α) :
    IsKept d (Vocabulary.toJson a) :=
  isKept_text d (Vocabulary.word a)

theorem isKept_package (d : Nat) (p : Package) : IsKept (d + 1) p.toJson := by
  apply isKept_record p.names_sublist (by decide)
  simp [isKept_text, isKept_word64, fieldsAll_append, fieldsAll_ifPresent]

theorem isKept_sourcePackage (d : Nat) (p : SourcePackage) : IsKept (d + 1) p.toJson := by
  apply isKept_record p.names_sublist (by decide)
  simp [isKept_text, isKept_word64]

theorem isKept_version (d : Nat) (v : Version) : IsKept (d + 1) v.toJson := by
  apply isKept_record v.names_sublist (by decide)
  simp [isKept_text, isKept_word32, fieldsAll_append, fieldsAll_ifPresent]

theorem isKept_binary (d : Nat) (b : Binary) : IsKept (d + 2) b.toJson := by
  apply isKept_record b.names_sublist (by decide)
  simp [isKept_vocabulary, isKept_instant, isKept_word64, isKept_package]

theorem isKept_release (d : Nat) (r : Release) : IsKept (d + 4) r.toJson := by
  have hbinaries : IsKept (d + 3) (.array (r.binaries.map Binary.toJson)) := by
    apply isKept_array
    intro x hx
    obtain ⟨b, -, rfl⟩ := List.mem_map.1 hx
    exact isKept_binary d b
  have hversion : IsKept (d + 3) r.version.toJson := isKept_version (d + 2) r.version
  apply isKept_record r.names_sublist (by decide)
  simp [isKept_text, isKept_vocabulary, isKept_instant, isKept_word64, hbinaries, hversion,
    isKept_sourcePackage, fieldsAll_append, fieldsAll_ifPresent]

theorem Release.member?_version (r : Release) :
    r.toJson.member? "version_data" = some r.version.toJson := by
  rw [toJson, Json.record_eq, Json.member?, Json.lookup_members]
  simp [List.lookup_cons]

namespace Feed

theorem readDocument_toJson (position : Nat) (r : Release) :
    readDocument position r.toJson = .ok r := by
  unfold readDocument
  simp only [r.member?_version, pure_bind, isCodec_release.read_write]
  rfl

theorem readDocuments_toJson (rs : List Release) (position : Nat) :
    readDocuments position (rs.map Release.toJson) = .ok rs := by
  induction rs generalizing position with
  | nil => rfl
  | cons r rs ih =>
    rw [List.map_cons, readDocuments, readDocument_toJson, ih]
    rfl

/-- Documents that are kept as they stand are read one after the other, whatever gaps stand between
them. -/
theorem parse_of_isKept (lead inner : Gap) {xs : List (Spaced Json)} (trail : Gap)
    (h : ∀ x ∈ xs, x.value.IsPlain ∧ IsKept 126 x.value) :
    parse (spacedArray lead inner (xs.map (·.map Json.print)) trail) =
      readDocuments 0 (xs.map (·.value)) := by
  have harray : IsKept Json.depthLimit (.array (xs.map (·.value))) := by
    apply isKept_array (d := 126)
    intro x hx
    obtain ⟨y, hy, rfl⟩ := List.mem_map.1 hx
    exact (h y hy).2
  have hparse := Json.parse?_spacedArray lead inner trail fun x hx => (h x hx).1
  rw [parse, harray.parseWhole? (Nat.le_refl _) hparse]

theorem parse_spacedArray (lead inner : Gap) (rs : List (Spaced Release)) (trail : Gap) :
    parse (spacedArray lead inner (rs.map (·.map Release.print)) trail) =
      .ok (rs.map (·.value)) := by
  have hdocuments : ∀ x ∈ rs.map (·.map Release.toJson), x.value.IsPlain ∧ IsKept 126 x.value := by
    intro x hx
    obtain ⟨r, -, rfl⟩ := List.mem_map.1 hx
    exact ⟨isCodec_release.isPlain r.value, isKept_release 122 r.value⟩
  have hvalues : (rs.map (·.map Release.toJson)).map (·.value) =
      (rs.map (·.value)).map Release.toJson := by
    rw [List.map_map, List.map_map]
    rfl
  have hread := parse_of_isKept lead inner trail hdocuments
  rw [hvalues, readDocuments_toJson, List.map_map] at hread
  exact hread

end Feed

/-- A release is read back as it was written, by itself and in a feed with other releases, whatever
gaps stand between the documents. -/
theorem Release.round_trip :
    (∀ r : Release, Release.parse? r.print = some r) ∧
      ∀ (lead inner : Gap) (rs : List (Spaced Release)) (trail : Gap),
        Feed.parse (spacedArray lead inner (rs.map (·.map Release.print)) trail) =
          .ok (rs.map (·.value)) :=
  ⟨Release.parse?_print, Feed.parse_spacedArray⟩

end ReleaseCatalog
