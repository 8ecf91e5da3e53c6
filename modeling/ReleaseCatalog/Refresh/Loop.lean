import ReleaseCatalog.Archive.Basic

namespace ReleaseCatalog

inductive RefreshError where
  /-- The releases of a feature version could not be had. -/
  | source (featureVersion : UInt32) (cause : ReadError)
  /-- A release came with a feature version that is not its own. -/
  | mismatch (cause : FeatureVersionMismatch)
deriving DecidableEq, Repr

def RefreshError.message : RefreshError → String
  | .source featureVersion cause =>
    "Failed to read feature version " ++ toString featureVersion.toNat ++ ": " ++ cause.message
  | .mismatch cause => cause.message

/-- What a read of a feature version gives. -/
abbrev Source : Type := UInt32 → Except ReadError Line

def Archive.source (a : Archive) : Source := fun f => (a.read f).map (⟨f, ·⟩)

/-- The line that the answer to a read stands for; none where nothing is filed. Whatever the answer
is filed under, the line is filed under what was asked for. -/
def Line.ofAnswer (featureVersion : UInt32) :
    Except ReadError Line → Except RefreshError (Option Line)
  | .ok answered =>
    let l : Line := ⟨featureVersion, answered.releases⟩
    match l.mismatch? with
    | some e => .error (.mismatch e)
    | none => .ok (some l)
  | .error (.notFound _) => .ok none
  | .error e => .error (.source featureVersion e)

/-- The answer to a read, and the place of the read among those of its cycle. -/
structure Arrival where
  position : Nat
  featureVersion : UInt32
  answer : Except ReadError Line

/-- The snapshot that the answers of a cycle make up. They are put into the order of the reads
first, so of several faults the one of the first read counts, whichever came first in time. -/
def Snapshot.ofArrivals (arrivals : List Arrival) : Except RefreshError Snapshot := do
  let lines ← (arrivals.mergeSort (·.position ≤ ·.position)).mapM fun x =>
    Line.ofAnswer x.featureVersion x.answer
  return .ofLines (lines.filterMap id)

/-- The answers of a cycle in the order of its reads, where `answer` tells the answer to the read
at a position. -/
def arrivalsInOrder (answer : Nat → Source) (featureVersions : List UInt32) : List Arrival :=
  featureVersions.zipIdx.map fun (f, i) => ⟨i, f, answer i f⟩

/-- A cycle: its reads, the answers that they get, and the order in which these arrive. The reads
of a cycle run side by side, so any order can come about. -/
structure Cycle where
  featureVersions : List UInt32
  answer : Nat → Source
  arrivals : List Arrival
  isComplete : arrivals.Perm (arrivalsInOrder answer featureVersions)

namespace Cycle

/-- The cycle whose answers arrive in the order of its reads. -/
def inOrder (answer : Nat → Source) (featureVersions : List UInt32) : Cycle :=
  ⟨featureVersions, answer, arrivalsInOrder answer featureVersions, .refl _⟩

def reading (c : Cycle) : Except RefreshError Snapshot := Snapshot.ofArrivals c.arrivals

end Cycle

def Snapshot.read (source : Source) (featureVersions : List UInt32) :
    Except RefreshError Snapshot :=
  (Cycle.inOrder (fun _ => source) featureVersions).reading

/-- The place where a snapshot is published for readers. -/
structure Board where
  current : Snapshot
  /-- How many snapshots were published before the current one. -/
  number : Nat

namespace Board

def initial : Board := ⟨.empty, 0⟩

def publish (b : Board) (s : Snapshot) : Board := ⟨s, b.number + 1⟩

/-- The board after a cycle: a failed one leaves it as it is. -/
def afterCycle (b : Board) : Except RefreshError Snapshot → Board
  | .ok s => b.publish s
  | .error _ => b

def refresh (b : Board) (c : Cycle) : Except RefreshError Unit × Board :=
  (c.reading.map fun _ => (), b.afterCycle c.reading)

end Board

namespace Refresh

/-- The answers that a changing source gives to reads, numbered from one over all cycles. -/
abbrev Timeline : Type := Nat → Source

structure Progress where
  board : Board
  /-- How many reads were made so far. -/
  reads : Nat

/-- One cycle, whose reads are numbered on from those made so far. -/
def cycle (timeline : Timeline) (featureVersions : List UInt32) (p : Progress) : Progress where
  board := (p.board.refresh (.inOrder (fun i => timeline (p.reads + i + 1)) featureVersions)).2
  reads := p.reads + featureVersions.length

/-- Cycles until the read numbered `stopAt` has been made, but no more than `cycles`. Whether to go
on is asked before each cycle, so a cycle that has begun is completed. -/
def cyclesUntil (timeline : Timeline) (featureVersions : List UInt32) (stopAt : Nat) :
    Nat → Progress → Progress
  | 0, p => p
  | cycles + 1, p =>
    if stopAt ≤ p.reads then p
    else cyclesUntil timeline featureVersions stopAt cycles (cycle timeline featureVersions p)

/-- The loop that is told to stop during the read numbered `stopAt`, or before it starts if that is
zero. A cycle makes at least one read, so `stopAt` cycles are enough. -/
def run (timeline : Timeline) (featureVersions : List UInt32) (stopAt : Nat) (b : Board) :
    Progress :=
  cyclesUntil timeline featureVersions stopAt stopAt ⟨b, 0⟩

end Refresh

end ReleaseCatalog
