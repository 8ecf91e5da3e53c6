import ReleaseCatalog.Release.Basic
import ReleaseCatalog.Json.Reader
import ReleaseCatalog.Json.Writer
import ReleaseCatalog.Time.Stamp

namespace ReleaseCatalog

open Json (record nat text ifPresent required optional defaulted text? word32? word64? list?)

namespace Instant

def toJson (t : Instant) : Json := text t.print

def ofJson? (x : Json) : Option Instant := (text? x).bind parse?

end Instant

namespace Version

def toJson (v : Version) : Json :=
  record <|
    [("major", nat v.major.toNat), ("minor", nat v.minor.toNat),
      ("security", nat v.security.toNat)] ++
    ifPresent "pre" text v.pre ++
    ifPresent "patch" (nat ·.toNat) v.patch ++
    ifPresent "additional_build_number" (nat ·.toNat) v.additional ++
    [("build", nat v.build.toNat)] ++
    ifPresent "optional" text v.optional ++
    [("semver", text v.canonical)]

def ofJson? (x : Json) : Option Version := do
  let [major, minor, security, pre, patch, additional, build, suffix, canonical] ← x.fields?
    ["major", "minor", "security", "pre", "patch", "additional_build_number", "build", "optional",
      "semver"] | none
  return {
    major := ← required word32? major
    minor := ← required word32? minor
    security := ← required word32? security
    pre := ← optional text? pre
    patch := ← optional word32? patch
    additional := ← optional word32? additional
    build := ← defaulted 0 word32? build
    optional := ← optional text? suffix
    canonical := ← required text? canonical }

end Version

namespace Package

def toJson (p : Package) : Json :=
  record <|
    [("name", text p.name), ("link", text p.link), ("size", nat p.size.toNat)] ++
    ifPresent "checksum" text p.checksum ++
    ifPresent "signature_link" text p.signatureLink

def ofJson? (x : Json) : Option Package := do
  let [name, link, size, checksum, signatureLink] ← x.fields?
    ["name", "link", "size", "checksum", "signature_link"] | none
  return {
    name := ← required text? name
    link := ← required text? link
    size := ← required word64? size
    checksum := ← optional text? checksum
    signatureLink := ← optional text? signatureLink }

end Package

namespace SourcePackage

def toJson (p : SourcePackage) : Json :=
  record [("name", text p.name), ("link", text p.link), ("size", nat p.size.toNat)]

def ofJson? (x : Json) : Option SourcePackage := do
  let [name, link, size] ← x.fields? ["name", "link", "size"] | none
  return {
    name := ← required text? name
    link := ← required text? link
    size := ← required word64? size }

end SourcePackage

namespace Binary

def toJson (b : Binary) : Json :=
  record
    [("os", Vocabulary.toJson b.os), ("architecture", Vocabulary.toJson b.architecture),
      ("image_type", Vocabulary.toJson b.imageType), ("jvm_impl", Vocabulary.toJson b.jvmVariant),
      ("heap_size", Vocabulary.toJson b.heapSize), ("project", Vocabulary.toJson b.project),
      ("updated_at", b.updatedAt.toJson), ("download_count", nat b.downloadCount.toNat),
      ("package", b.package.toJson)]

def ofJson? (x : Json) : Option Binary := do
  let [os, architecture, imageType, jvmVariant, heapSize, project, updatedAt, downloadCount,
      package] ← x.fields?
    ["os", "architecture", "image_type", "jvm_impl", "heap_size", "project", "updated_at",
      "download_count", "package"] | none
  return {
    os := ← required Vocabulary.ofJson? os
    architecture := ← required Vocabulary.ofJson? architecture
    imageType := ← required Vocabulary.ofJson? imageType
    jvmVariant := ← required Vocabulary.ofJson? jvmVariant
    heapSize := ← required Vocabulary.ofJson? heapSize
    project := ← defaulted Project.primary Vocabulary.ofJson? project
    updatedAt := ← required Instant.ofJson? updatedAt
    downloadCount := ← defaulted 0 word64? downloadCount
    package := ← required Package.ofJson? package }

end Binary

namespace Release

def toJson (r : Release) : Json :=
  record <|
    [("id", text r.id), ("release_type", Vocabulary.toJson r.kind), ("release_name", text r.name),
      ("release_link", text r.link), ("timestamp", r.timestamp.toJson),
      ("updated_at", r.updatedAt.toJson), ("vendor", Vocabulary.toJson r.vendor),
      ("version_data", r.version.toJson), ("download_count", nat r.downloadCount.toNat),
      ("binaries", .array (r.binaries.map Binary.toJson))] ++
    ifPresent "source" SourcePackage.toJson r.source

def ofJson? (x : Json) : Option Release := do
  let [id, kind, name, link, timestamp, updatedAt, vendor, version, downloadCount, binaries,
      source] ← x.fields?
    ["id", "release_type", "release_name", "release_link", "timestamp", "updated_at", "vendor",
      "version_data", "download_count", "binaries", "source"] | none
  return {
    id := ← required text? id
    kind := ← required Vocabulary.ofJson? kind
    name := ← required text? name
    link := ← required text? link
    timestamp := ← required Instant.ofJson? timestamp
    updatedAt := ← required Instant.ofJson? updatedAt
    vendor := ← required Vocabulary.ofJson? vendor
    version := ← required Version.ofJson? version
    downloadCount := ← defaulted 0 word64? downloadCount
    binaries := ← required (list? Binary.ofJson?) binaries
    source := ← optional SourcePackage.ofJson? source }

def print (r : Release) : String := r.toJson.print

def parse? (s : String) : Option Release := (Json.parse? s).bind ofJson?

end Release

end ReleaseCatalog
