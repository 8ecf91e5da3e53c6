import ReleaseCatalog.Release.Document
import ReleaseCatalog.Version.Name

namespace ReleaseCatalog

inductive FeedError where
  /-- The feed, or a document in it, is not of the right form. -/
  | malformed
  /-- The document at a position, from zero, has neither a version nor a name. -/
  | missingName (position : Nat)
  /-- There is no version in the name of a release that needs one. -/
  | version (name : String) (cause : UnrecognizedVersion)
deriving DecidableEq, Repr

def FeedError.message : FeedError → String
  | .malformed => "Invalid release JSON"
  | .missingName position => "Release at position " ++ toString position ++ " has no release_name"
  | .version name cause => "Release " ++ name ++ ": " ++ cause.message

namespace Feed

/-- Reads the document at a position. One that leaves its version out has the version in the name of
the release. -/
def readDocument (position : Nat) (x : Json) : Except FeedError Release := do
  let complete ←
    match x.member? "version_data", x with
    | none, .object members => do
      let some name := (x.member? "release_name").bind Json.text?
        | throw (.missingName position)
      let version ← (Version.ofReleaseName name).mapError (.version name)
      pure (Json.object ((some "version_data", version.toJson) :: members))
    | none, _ => throw (.missingName position)
    | some _, x => pure x
  match Release.ofJson? complete with
  | some release => return release
  | none => throw .malformed

/-- Reads the documents of a feed from a position on. The first that cannot be read decides. -/
def readDocuments (position : Nat) : List Json → Except FeedError (List Release)
  | [] => .ok []
  | x :: xs => do
    let release ← readDocument position x
    let releases ← readDocuments (position + 1) xs
    return release :: releases

def parse (s : String) : Except FeedError (List Release) :=
  match Json.parseWhole? s with
  | some (.array xs) => readDocuments 0 xs
  | _ => .error .malformed

end Feed

end ReleaseCatalog
