import Mathlib.Data.Finset.Insert
import ReleaseCatalog.Proofs.Catalog.Difference
import ReleaseCatalog.Proofs.Json.Members
import ReleaseCatalog.Proofs.Release.Feed
import ReleaseCatalog.Proofs.Traversal

namespace ReleaseCatalog

open Json (IsKept Gap Spaced record text spacedArray)

namespace Release

theorem exists_toJson_eq (r : Release) :
    ∃ before after, "version_data" ∉ (before ++ after).map (·.1) ∧
      ∀ v : Version, ({ r with version := v } : Release).toJson =
        record (before ++ ("version_data", v.toJson) :: after) := by
  refine ⟨
    [("id", text r.id), ("release_type", Vocabulary.toJson r.kind), ("release_name", text r.name),
      ("release_link", text r.link), ("timestamp", r.timestamp.toJson),
      ("updated_at", r.updatedAt.toJson), ("vendor", Vocabulary.toJson r.vendor)],
    [("download_count", Json.nat r.downloadCount.toNat),
      ("binaries", .array (r.binaries.map Binary.toJson))] ++
      Json.ifPresent "source" SourcePackage.toJson r.source, ?_, fun v => rfl⟩
  -- the member of the sources may be missing, so it is known by the names it can have
  have hsource := (Json.ifPresent_names_sublist "source" SourcePackage.toJson r.source).subset
  rw [List.map_append, List.map_append, List.mem_append, List.mem_append]
  rintro (hmem | hmem | hmem)
  · exact absurd hmem (by simp)
  · exact absurd hmem (by simp)
  · exact absurd (hsource hmem) (by decide)

theorem member?_name (r : Release) : r.toJson.member? "release_name" = some (text r.name) := by
  rw [toJson, Json.record_eq, Json.member?, Json.lookup_members]
  simp [List.lookup_cons]

theorem ofJson?_congr {x y : Json} (h : ∀ names, x.fields? names = y.fields? names) :
    ofJson? x = ofJson? y := by
  rw [ofJson?, ofJson?, h]

theorem ofJson?_withMember_without (r : Release) (v : Version) :
    ofJson? ((r.toJson.without "version_data").withMember "version_data" v.toJson) =
      some { r with version := v } := by
  obtain ⟨before, after, hnew, hdocument⟩ := r.exists_toJson_eq
  have hr : r.toJson = record (before ++ ("version_data", r.version.toJson) :: after) :=
    hdocument r.version
  rw [hr, ofJson?_congr (Json.fields?_withMember_without hnew), ← hdocument v]
  exact isCodec_release.read_write _

end Release

namespace Feed

/-- The name that a document gives, if it is a text. -/
def givenName? (x : Json) : Option String := (x.member? "release_name").bind Json.text?

/-- Reads a document that has its version in it. -/
def readComplete (x : Json) : Except FeedError Release :=
  (Release.ofJson? x).elim (.error .malformed) .ok

section Document

variable {position : Nat} {x y : Json} {name : String} {v : Version} {cause : UnrecognizedVersion}

theorem readDocument_of_version (h : x.member? "version_data" = some y) :
    readDocument position x = readComplete x := by
  unfold readDocument readComplete
  simp only [h, pure_bind]
  cases Release.ofJson? x <;> rfl

theorem readDocument_of_noName (h : x.member? "version_data" = none) (hname : givenName? x = none) :
    readDocument position x = .error (.missingName position) := by
  unfold readDocument
  unfold givenName? at hname
  cases x <;> simp only [h, hname] <;> rfl

theorem readDocument_of_rejected (h : x.member? "version_data" = none)
    (hname : givenName? x = some name) (hv : Version.ofReleaseName name = .error cause) :
    readDocument position x = .error (.version name cause) := by
  unfold readDocument
  unfold givenName? at hname
  cases x <;> simp only [h, hname, hv] <;> first | rfl | cases hname

theorem readDocument_of_accepted (h : x.member? "version_data" = none)
    (hname : givenName? x = some name) (hv : Version.ofReleaseName name = .ok v) :
    readDocument position x = readComplete (x.withMember "version_data" v.toJson) := by
  unfold readDocument readComplete
  unfold givenName? at hname
  cases x with
  | object ms =>
    simp only [h, hname, hv, Json.withMember, Except.mapError, bind, Except.bind, pure, Except.pure]
    cases Release.ofJson? (.object ((some "version_data", v.toJson) :: ms)) <;> rfl
  | _ => cases hname

theorem eq_malformed_of_readComplete {e : FeedError} (h : readComplete x = .error e) :
    e = .malformed := by
  unfold readComplete at h
  cases hx : Release.ofJson? x with
  | none =>
    rw [hx] at h
    cases h
    rfl
  | some r =>
    rw [hx] at h
    cases h

theorem readDocument_eq_missingName_iff {p : Nat} :
    readDocument position x = .error (.missingName p) ↔
      p = position ∧ x.member? "version_data" = none ∧ givenName? x = none := by
  cases hx : x.member? "version_data" with
  | some y =>
    rw [readDocument_of_version hx]
    -- with a version there is no other error than a document of the wrong form
    refine ⟨fun h => ?_, fun h => nomatch h.2.1⟩
    cases eq_malformed_of_readComplete h
  | none =>
    cases hname : givenName? x with
    | none =>
      rw [readDocument_of_noName hx hname]
      exact ⟨fun h => by cases h; exact ⟨rfl, rfl, rfl⟩, fun h => by rw [h.1]⟩
    | some name =>
      refine ⟨fun h => ?_, fun h => nomatch h.2.2⟩
      cases hv : Version.ofReleaseName name with
      | error cause =>
        rw [readDocument_of_rejected hx hname hv] at h
        cases h
      | ok v =>
        rw [readDocument_of_accepted hx hname hv] at h
        cases eq_malformed_of_readComplete h

end Document

section Documents

variable {α : Type} {f : Nat → α → Json} {as : List α} {e : FeedError}

theorem readDocuments_zipIdx (f : Nat → α → Json) (as : List α) (position : Nat) :
    readDocuments position ((as.zipIdx position).map fun a => f a.2 a.1) =
      (as.zipIdx position).mapM fun a => readDocument a.2 (f a.2 a.1) := by
  induction as generalizing position with
  | nil => rfl
  | cons a as ih =>
    rw [List.zipIdx_cons, List.map_cons, readDocuments, List.mapM_cons, ih]

theorem readDocuments_mapIdx (f : Nat → α → Json) (as : List α) :
    readDocuments 0 (as.mapIdx f) = as.zipIdx.mapM fun a => readDocument a.2 (f a.2 a.1) := by
  rw [List.mapIdx_eq_zipIdx_map]
  exact readDocuments_zipIdx f as 0

theorem readDocuments_mapIdx_eq_ok {g : Nat → α → Release}
    (h : ∀ i a, as[i]? = some a → readDocument i (f i a) = .ok (g i a)) :
    readDocuments 0 (as.mapIdx f) = .ok (as.mapIdx g) := by
  rw [readDocuments_mapIdx, mapM_zipIdx_eq_ok h, List.mapIdx_eq_zipIdx_map]

/-- The first document that cannot be read decides. -/
theorem readDocuments_mapIdx_eq_error_iff :
    readDocuments 0 (as.mapIdx f) = .error e ↔
      ∃ i a, as[i]? = some a ∧ readDocument i (f i a) = .error e ∧
        ∀ j < i, ∀ b, as[j]? = some b → ∃ r, readDocument j (f j b) = .ok r := by
  rw [readDocuments_mapIdx, mapM_zipIdx_eq_error_iff fun i a => readDocument i (f i a)]

theorem readDocuments_eq_error_iff {xs : List Json} :
    readDocuments 0 xs = .error e ↔
      ∃ i x, xs[i]? = some x ∧ readDocument i x = .error e ∧
        ∀ j < i, ∀ y, xs[j]? = some y → ∃ r, readDocument j y = .ok r := by
  have hxs : xs.mapIdx (fun _ x => x) = xs := by
    rw [List.mapIdx_eq_zipIdx_map]
    exact List.zipIdx_map_fst 0 xs
  rw [← hxs, readDocuments_mapIdx_eq_error_iff, hxs]

end Documents

section Omitted

variable {omitted : Finset Nat} {i : Nat} {r : Release}

/-- The document of a release at a position. At the positions of a set it leaves its version out. -/
def document (omitted : Finset Nat) (i : Nat) (r : Release) : Json :=
  if i ∈ omitted then r.toJson.without "version_data" else r.toJson

/-- A feed of such documents, with gaps wherever they may stand. -/
def written (lead inner : Gap) (rs : List (Spaced Release)) (trail : Gap)
    (omitted : Finset Nat) : String :=
  spacedArray lead inner (rs.mapIdx fun i r => r.map fun r => (document omitted i r).print) trail

theorem document_of_mem (h : i ∈ omitted) :
    document omitted i r = r.toJson.without "version_data" := if_pos h

theorem document_of_not_mem (h : i ∉ omitted) : document omitted i r = r.toJson := if_neg h

theorem isPlain_document : (document omitted i r).IsPlain := by
  by_cases h : i ∈ omitted
  · rw [document_of_mem h]
    exact (isCodec_release.isPlain r).without _
  · rw [document_of_not_mem h]
    exact isCodec_release.isPlain r

theorem isKept_document : IsKept 126 (document omitted i r) := by
  by_cases h : i ∈ omitted
  · rw [document_of_mem h]
    exact (isKept_release 122 r).without _
  · rw [document_of_not_mem h]
    exact isKept_release 122 r

theorem member?_version_document (h : i ∈ omitted) :
    (document omitted i r).member? "version_data" = none := by
  rw [document_of_mem h, Json.member?_without, if_pos rfl]

theorem givenName?_document (h : i ∈ omitted) :
    givenName? (document omitted i r) = some r.name := by
  rw [document_of_mem h, givenName?, Json.member?_without, if_neg (by decide), r.member?_name]
  rfl

theorem readDocument_document_eq_ok {v : Version}
    (h : i ∈ omitted → Version.ofReleaseName r.name = .ok v) :
    readDocument i (document omitted i r) =
      .ok (if i ∈ omitted then { r with version := v } else r) := by
  by_cases hi : i ∈ omitted
  · rw [readDocument_of_accepted (member?_version_document hi) (givenName?_document hi) (h hi),
      document_of_mem hi, readComplete, r.ofJson?_withMember_without, if_pos hi]
    rfl
  · rw [document_of_not_mem hi, readDocument_toJson, if_neg hi]

theorem readDocument_document_eq_error {cause : UnrecognizedVersion} (hi : i ∈ omitted)
    (h : Version.ofReleaseName r.name = .error cause) :
    readDocument i (document omitted i r) = .error (.version r.name cause) :=
  readDocument_of_rejected (member?_version_document hi) (givenName?_document hi) h

theorem parse_written (lead inner : Gap) (rs : List (Spaced Release)) (trail : Gap)
    (omitted : Finset Nat) :
    parse (written lead inner rs trail omitted) =
      readDocuments 0 (rs.mapIdx fun i r => document omitted i r.value) := by
  have hdocuments : ∀ x ∈ rs.mapIdx fun i r => r.map (document omitted i),
      x.value.IsPlain ∧ IsKept 126 x.value := by
    intro x hx
    obtain ⟨i, hi, rfl⟩ := List.mem_mapIdx.1 hx
    exact ⟨isPlain_document, isKept_document⟩
  have hread := parse_of_isKept lead inner trail hdocuments
  rw [map_mapIdx, map_mapIdx] at hread
  exact hread

end Omitted

theorem parse_eq_error_iff {s : String} {e : FeedError} :
    parse s = .error e ↔
      (∃ xs, Json.parseWhole? s = some (.array xs) ∧ readDocuments 0 xs = .error e) ∨
        e = .malformed ∧ ∀ xs, Json.parseWhole? s ≠ some (.array xs) := by
  unfold parse
  split
  next xs hs =>
    simp [hs]
  next hs =>
    constructor
    · intro h
      cases h
      exact .inr ⟨rfl, hs⟩
    · rintro (⟨xs, hxs, -⟩ | ⟨rfl, -⟩)
      · exact absurd hxs (hs xs)
      · rfl

/-- A feed is read position by position, and as a whole or not at all. Where the documents of
written releases leave versions out, the versions are those that the names give, and the first name
that gives none decides; names at other positions make no difference. Whatever a feed consists of,
its error is that of the first of its documents that cannot be read. -/
theorem parse_positional :
    (∀ (lead inner : Gap) (rs : List (Spaced Release)) (trail : Gap) (omitted : Finset Nat),
      (∀ versions : Nat → Version,
        (∀ i ∈ omitted, ∀ r, rs[i]? = some r →
          Version.ofReleaseName r.value.name = .ok (versions i)) →
        parse (written lead inner rs trail omitted) = .ok (rs.mapIdx fun i r =>
          if i ∈ omitted then { r.value with version := versions i } else r.value)) ∧
      ∀ i ∈ omitted, ∀ r cause, rs[i]? = some r →
        Version.ofReleaseName r.value.name = .error cause →
        (∀ j ∈ omitted, j < i → ∀ q, rs[j]? = some q →
          ∃ v, Version.ofReleaseName q.value.name = .ok v) →
        parse (written lead inner rs trail omitted) = .error (.version r.value.name cause)) ∧
    (∀ (s : String) (e : FeedError),
      parse s = .error e ↔
        (∃ xs, Json.parseWhole? s = some (.array xs) ∧
          ∃ i x, xs[i]? = some x ∧ readDocument i x = .error e ∧
            ∀ j < i, ∀ y, xs[j]? = some y → ∃ r, readDocument j y = .ok r) ∨
        e = .malformed ∧ ∀ xs, Json.parseWhole? s ≠ some (.array xs)) ∧
    ∀ (i p : Nat) (x : Json),
      readDocument i x = .error (.missingName p) ↔
        p = i ∧ x.member? "version_data" = none ∧
          (x.member? "release_name").bind Json.text? = none := by
  refine ⟨fun lead inner rs trail omitted => ⟨fun versions h => ?_, ?_⟩, fun s e => ?_,
    fun i p x => readDocument_eq_missingName_iff⟩
  · rw [parse_written]
    exact readDocuments_mapIdx_eq_ok fun i r hr =>
      readDocument_document_eq_ok fun hi => h i hi r hr
  · intro i hi r cause hr hcause hbefore
    rw [parse_written, readDocuments_mapIdx_eq_error_iff]
    refine ⟨i, r, hr, readDocument_document_eq_error hi hcause, fun j hj q hq => ?_⟩
    -- a document in front has its version in it, or else its name gives one
    by_cases hmem : j ∈ omitted
    · obtain ⟨v, hv⟩ := hbefore j hmem hj q hq
      exact ⟨_, readDocument_document_eq_ok fun _ => hv⟩
    · exact ⟨q.value, by rw [document_of_not_mem hmem, readDocument_toJson]⟩
  · rw [parse_eq_error_iff]
    simp only [readDocuments_eq_error_iff]

/-- The first of two names gives no version, the second one does. -/
def nightlyAndEarly : List (Spaced Release) :=
  [⟨.empty, .plain "nightly" 17 (.atSecond 0), .empty⟩,
    ⟨.empty, .plain "jdk-11.0.7-ea+9" 8 (.atSecond 0), .empty⟩]

/-- The version that the second name gives. -/
def earlyVersion : Version := ⟨⟨11, 0, 7, some "ea", none, 9, none, none⟩, "11.0.7-ea+9"⟩

theorem parse_positional_nightlyAndEarly :
    Version.ofReleaseName "nightly" = .error ⟨"nightly"⟩ ∧
    Version.ofReleaseName "jdk-11.0.7-ea+9" = .ok earlyVersion ∧
    parse (written .empty .empty nightlyAndEarly .empty {1}) =
      .ok [.plain "nightly" 17 (.atSecond 0),
        { Release.plain "jdk-11.0.7-ea+9" 8 (.atSecond 0) with version := earlyVersion }] ∧
    parse (written .empty .empty nightlyAndEarly .empty {0, 1}) =
      .error (.version "nightly" ⟨"nightly"⟩) := by
  have hnone : Version.select? .anywhere true (normalizeName "nightly") = none := by
    decide +kernel
  have hsome : Version.select? .anywhere true (normalizeName "jdk-11.0.7-ea+9") =
      some earlyVersion := by
    decide +kernel
  have hnightly : Version.ofReleaseName "nightly" = .error ⟨"nightly"⟩ := by
    rw [Version.ofReleaseName, Version.parse, hnone]
  have hearly : Version.ofReleaseName "jdk-11.0.7-ea+9" = .ok earlyVersion := by
    rw [Version.ofReleaseName, Version.parse, hsome]
  refine ⟨hnightly, hearly, ?_, ?_⟩
  · apply (parse_positional.1 .empty .empty nightlyAndEarly .empty {1}).1 fun _ => earlyVersion
    intro i hi r hr
    obtain rfl := Finset.mem_singleton.1 hi
    cases hr
    exact hearly
  · apply (parse_positional.1 .empty .empty nightlyAndEarly .empty {0, 1}).2 0 (by decide) _ _ rfl
      hnightly
    intro j _ hj
    exact absurd hj (Nat.not_lt_zero j)

end Feed

end ReleaseCatalog
