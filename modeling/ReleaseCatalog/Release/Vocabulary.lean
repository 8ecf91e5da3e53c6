import ReleaseCatalog.Json.Record

namespace ReleaseCatalog

/-- A closed vocabulary. -/
class Vocabulary (α : Type) where
  /-- What the terms are, for messages. -/
  kind : String
  /-- All terms, in their order. -/
  all : List α
  /-- The word for a term. -/
  word : α → String

/-- A word that a vocabulary does not have. -/
structure UnknownWord where
  kind : String
  value : String
deriving DecidableEq, Repr

def UnknownWord.message (e : UnknownWord) : String :=
  "Unknown " ++ e.kind ++ " value: " ++ e.value

namespace Vocabulary

variable {α : Type} [Vocabulary α]

/-- The place of a term among all, from zero. -/
def position [DecidableEq α] (a : α) : Nat := (all (α := α)).idxOf a

def ofWord? (w : String) : Option α := all.find? fun a => word a == w

def ofWord (w : String) : Except UnknownWord α :=
  match ofWord? w with
  | some a => .ok a
  | none => .error ⟨kind α, w⟩

def toJson (a : α) : Json := .text (word a)

/-- A term is read from its word, or from an object that gives no value to its word. -/
def ofJson? : Json → Option α
  | .string (some w) => ofWord? w
  | .object [(some w, .null)] => ofWord? w
  | _ => none

end Vocabulary

/-- General availability or early access. -/
inductive ReleaseKind where
  | generalAvailability | earlyAccess
deriving DecidableEq, Repr

instance : Vocabulary ReleaseKind where
  kind := "release kind"
  all := [.generalAvailability, .earlyAccess]
  word
    | .generalAvailability => "ga"
    | .earlyAccess => "ea"

inductive Vendor where
  | adoptOpenJdk | openJdk | eclipse | alibaba
deriving DecidableEq, Repr

instance : Vocabulary Vendor where
  kind := "vendor"
  all := [.adoptOpenJdk, .openJdk, .eclipse, .alibaba]
  word
    | .adoptOpenJdk => "adoptopenjdk"
    | .openJdk => "openjdk"
    | .eclipse => "eclipse"
    | .alibaba => "alibaba"

inductive OperatingSystem where
  | linux | alpineLinux | windows | mac | solaris | aix
deriving DecidableEq, Repr

instance : Vocabulary OperatingSystem where
  kind := "os"
  all := [.linux, .alpineLinux, .windows, .mac, .solaris, .aix]
  word
    | .linux => "linux"
    | .alpineLinux => "alpine-linux"
    | .windows => "windows"
    | .mac => "mac"
    | .solaris => "solaris"
    | .aix => "aix"

inductive Architecture where
  | x64 | x86 | x32 | ppc64 | ppc64le | s390x | aarch64 | arm | sparcv9 | riscv64
deriving DecidableEq, Repr

instance : Vocabulary Architecture where
  kind := "architecture"
  all := [.x64, .x86, .x32, .ppc64, .ppc64le, .s390x, .aarch64, .arm, .sparcv9, .riscv64]
  word
    | .x64 => "x64"
    | .x86 => "x86"
    | .x32 => "x32"
    | .ppc64 => "ppc64"
    | .ppc64le => "ppc64le"
    | .s390x => "s390x"
    | .aarch64 => "aarch64"
    | .arm => "arm"
    | .sparcv9 => "sparcv9"
    | .riscv64 => "riscv64"

/-- What a binary contains. -/
inductive ImageType where
  | jdk | jre | testImage | debugImage | staticLibs | sources
deriving DecidableEq, Repr

instance : Vocabulary ImageType where
  kind := "image type"
  all := [.jdk, .jre, .testImage, .debugImage, .staticLibs, .sources]
  word
    | .jdk => "jdk"
    | .jre => "jre"
    | .testImage => "testimage"
    | .debugImage => "debugimage"
    | .staticLibs => "staticlibs"
    | .sources => "sources"

inductive JvmVariant where
  | hotspot | openj9 | corretto | dragonwell
deriving DecidableEq, Repr

instance : Vocabulary JvmVariant where
  kind := "jvm variant"
  all := [.hotspot, .openj9, .corretto, .dragonwell]
  word
    | .hotspot => "hotspot"
    | .openj9 => "openj9"
    | .corretto => "corretto"
    | .dragonwell => "dragonwell"

inductive HeapSize where
  | normal | large
deriving DecidableEq, Repr

instance : Vocabulary HeapSize where
  kind := "heap size"
  all := [.normal, .large]
  word
    | .normal => "normal"
    | .large => "large"

inductive Project where
  | jdk | valhalla | metropolis | jfr | shenandoah
deriving DecidableEq, Repr

/-- The project of a binary that names none, and the one that is asked for when none is. -/
def Project.primary : Project := .jdk

instance : Vocabulary Project where
  kind := "project"
  all := [.jdk, .valhalla, .metropolis, .jfr, .shenandoah]
  word
    | .jdk => "jdk"
    | .valhalla => "valhalla"
    | .metropolis => "metropolis"
    | .jfr => "jfr"
    | .shenandoah => "shenandoah"

end ReleaseCatalog
