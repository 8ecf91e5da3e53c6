import Mathlib.Algebra.Order.Floor.Div
import Mathlib.Logic.Relation
import ReleaseCatalog.Proofs.Refresh.FailSoft
import ReleaseCatalog.Refresh.Loop

namespace ReleaseCatalog

theorem Cycle.reading_congr {c d : Cycle} (hasked : c.featureVersions = d.featureVersions)
    (hanswer : ∀ i f, c.featureVersions[i]? = some f → c.answer i f = d.answer i f) :
    c.reading = d.reading := by
  have hfault (i : Nat) (e : RefreshError) : c.HasFault i e ↔ d.HasFault i e := by
    rw [HasFault, HasFault, ← hasked]
    apply exists_congr
    intro f
    apply and_congr_right
    intro hf
    rw [hanswer i f hf]
  have hlines : c.lines = d.lines := by
    rw [lines, lines, ← hasked]
    apply List.filterMap_congr
    rintro ⟨f, i⟩ hx
    show Line.answered? f (c.answer i f) = Line.answered? f (d.answer i f)
    rw [hanswer i f (List.mk_mem_zipIdx_iff_getElem?.1 hx)]
  cases hd : d.reading with
  | error e => simpa only [reading_eq_error_iff, hfault] using reading_eq_error_iff.1 hd
  | ok s => simpa only [reading_eq_ok_iff, hfault, hlines] using reading_eq_ok_iff.1 hd

namespace Refresh

open Relation (ReflTransGen)

/-- One more cycle of the loop that is told to stop during the read numbered `stopAt`. The reads of
the cycle take the numbers that come next, in whatever order they are made. -/
inductive Step (timeline : Timeline) (fs : List UInt32) (stopAt : Nat) :
    Progress → Progress → Prop where
  | cycle {p : Progress} (c : Cycle) (number : Nat → Nat) (hgoing : p.reads < stopAt)
      (hasked : c.featureVersions = fs)
      (hnumber : ((List.range fs.length).map number).Perm (List.range' (p.reads + 1) fs.length))
      (hanswer : ∀ i < fs.length, c.answer i = timeline (number i)) :
      Step timeline fs stopAt p ⟨(p.board.refresh c).2, p.reads + fs.length⟩

/-- A source that is constant once the first reads have been made, and whose answers to these are
all at fault. That nothing is filed is no fault. -/
structure RecoversAfter (failing : Nat) (timeline : Timeline) (fs : List UInt32)
    (source : Source) : Prop where
  fails : ∀ k, 1 ≤ k → k ≤ failing → ∀ f ∈ fs, ∃ e, ReadFault f (timeline k f) e
  constant : ∀ k, failing < k → ∀ f ∈ fs, timeline k f = source f

/-- The board after a number of cycles, the first of which fail, while the others all come to the
same reading. -/
def boardAfter (b : Board) (reading : Except RefreshError Snapshot) (failed cycles : Nat) : Board :=
  match reading with
  | .ok s => if cycles ≤ failed then b else ⟨s, b.number + (cycles - failed)⟩
  | .error _ => b

theorem boardAfter_of_error {b : Board} {reading : Except RefreshError Snapshot} {e : RefreshError}
    (h : reading = .error e) (failed cycles : Nat) : boardAfter b reading failed cycles = b := by
  rw [h]
  rfl

theorem boardAfter_of_lt {b : Board} {reading : Except RefreshError Snapshot} {s : Snapshot}
    (h : reading = .ok s) {failed cycles : Nat} (hlt : failed < cycles) :
    boardAfter b reading failed cycles = ⟨s, b.number + (cycles - failed)⟩ := by
  rw [h]
  exact if_neg (Nat.not_le_of_lt hlt)

theorem boardAfter_of_le {b : Board} {reading : Except RefreshError Snapshot}
    {failed cycles : Nat} (h : cycles ≤ failed) : boardAfter b reading failed cycles = b := by
  cases reading with
  | ok s => exact if_pos h
  | error e => rfl

theorem boardAfter_succ {b : Board} {reading : Except RefreshError Snapshot}
    {failed cycles : Nat} (h : failed ≤ cycles) :
    boardAfter b reading failed (cycles + 1) =
      (boardAfter b reading failed cycles).afterCycle reading := by
  cases reading with
  | error e => rfl
  | ok s =>
    rw [boardAfter_of_lt rfl (Nat.lt_succ_of_le h), Board.afterCycle, Board.publish,
      Board.mk.injEq, boardAfter]
    refine ⟨rfl, ?_⟩
    split
    · next hle =>
      obtain rfl : cycles = failed := Nat.le_antisymm hle h
      omega
    · show b.number + (cycles + 1 - failed) = b.number + (cycles - failed) + 1
      omega

theorem ceilDiv_lt_ceilDiv_iff {n failing stopAt : Nat} (hn : 0 < n) :
    failing ⌈/⌉ n < stopAt ⌈/⌉ n ↔ 1 ≤ stopAt ∧ failing ≤ n * (stopAt ⌈/⌉ n - 1) := by
  have hfailing : failing ⌈/⌉ n ≤ stopAt ⌈/⌉ n - 1 ↔ failing ≤ n * (stopAt ⌈/⌉ n - 1) :=
    ceilDiv_le_iff_le_mul hn
  have hstop : stopAt ⌈/⌉ n ≤ 0 ↔ stopAt ≤ n * 0 := ceilDiv_le_iff_le_mul hn
  rw [← hfailing]
  omega

section Run

variable {timeline : Timeline} {fs : List UInt32} {stopAt failing : Nat} {source : Source}
  {p q : Progress} {c : Cycle} {number : Nat → Nat}

section Reading

variable (hasked : c.featureVersions = fs)
  (hnumber : ((List.range fs.length).map number).Perm (List.range' (p.reads + 1) fs.length))
  (hanswer : ∀ i < fs.length, c.answer i = timeline (number i))

include hasked hnumber hanswer

theorem exists_reading_eq_error (h : RecoversAfter failing timeline fs source) (hfs : fs ≠ [])
    (hreads : p.reads < failing) : ∃ e, c.reading = .error e := by
  have hlength : 0 < fs.length := List.length_pos_iff.2 hfs
  -- Whatever the order of its reads, the next number is the number of one of them.
  have hfirst : p.reads + 1 ∈ (List.range fs.length).map number := by
    apply hnumber.mem_iff.2
    rw [List.mem_range'_1]
    omega
  obtain ⟨i, hi, hnext⟩ := List.mem_map.1 hfirst
  have hlt : i < fs.length := List.mem_range.1 hi
  have hf : fs[i]? = some fs[i] := List.getElem?_eq_getElem hlt
  obtain ⟨e, he⟩ := h.fails (p.reads + 1) (by omega) hreads fs[i] (List.getElem_mem hlt)
  apply Cycle.exists_reading_eq_error_iff.2
  refine ⟨i, e, fs[i], by rw [hasked, hf], ?_⟩
  rw [hanswer i hlt, hnext]
  exact he

theorem reading_eq_read (h : RecoversAfter failing timeline fs source)
    (hreads : failing ≤ p.reads) : c.reading = Snapshot.read source fs := by
  apply Cycle.reading_congr hasked
  intro i f hf
  rw [hasked] at hf
  have hlt : i < fs.length := (List.getElem?_eq_some_iff.1 hf).1
  have hmem : number i ∈ List.range' (p.reads + 1) fs.length :=
    hnumber.mem_iff.1 (List.mem_map_of_mem (List.mem_range.2 hlt))
  rw [List.mem_range'_1] at hmem
  rw [hanswer i hlt]
  exact h.constant (number i) (by omega) f (List.mem_of_getElem? hf)

theorem refresh_boardAfter (h : RecoversAfter failing timeline fs source) (hfs : fs ≠ [])
    (b : Board) {cycles : Nat} (hreads : p.reads = fs.length * cycles) :
    ((boardAfter b (Snapshot.read source fs) (failing ⌈/⌉ fs.length) cycles).refresh c).2 =
      boardAfter b (Snapshot.read source fs) (failing ⌈/⌉ fs.length) (cycles + 1) := by
  have hiff : failing ⌈/⌉ fs.length ≤ cycles ↔ failing ≤ p.reads := by
    rw [hreads]
    exact ceilDiv_le_iff_le_mul (List.length_pos_iff.2 hfs)
  by_cases hfailed : failing ⌈/⌉ fs.length ≤ cycles
  · rw [boardAfter_succ hfailed, Board.refresh,
      reading_eq_read hasked hnumber hanswer h (hiff.1 hfailed)]
  · have hlt : p.reads < failing := by
      rw [hiff] at hfailed
      exact Nat.lt_of_not_le hfailed
    have hcycles : cycles + 1 ≤ failing ⌈/⌉ fs.length := Nat.lt_of_not_le hfailed
    obtain ⟨e, he⟩ := exists_reading_eq_error hasked hnumber hanswer h hfs hlt
    rw [Board.refresh_of_error he, boardAfter_of_le hcycles]
    exact boardAfter_of_le (Nat.le_of_succ_le hcycles)

end Reading

/-- What the loop has come to after a number of cycles. -/
def stateAfter (failing : Nat) (fs : List UInt32) (source : Source) (b : Board) (cycles : Nat) :
    Progress :=
  ⟨boardAfter b (Snapshot.read source fs) (failing ⌈/⌉ fs.length) cycles, fs.length * cycles⟩

/-- A step takes the loop from what it has come to after some cycles to what it comes to after one
more, and there is one more only if the cycles so far do not reach the read that stops it. -/
theorem Step.eq_stateAfter {b : Board} {cycles : Nat}
    (h : RecoversAfter failing timeline fs source) (hfs : fs ≠ [])
    (hstep : Step timeline fs stopAt (stateAfter failing fs source b cycles) q) :
    cycles < stopAt ⌈/⌉ fs.length ∧ q = stateAfter failing fs source b (cycles + 1) := by
  obtain ⟨c, number, hgoing, hasked, hnumber, hanswer⟩ := hstep
  constructor
  · apply lt_of_not_ge
    intro hle
    have hreached := (ceilDiv_le_iff_le_mul (List.length_pos_iff.2 hfs)).1 hle
    exact Nat.not_lt_of_le hreached hgoing
  · have hboard := refresh_boardAfter hasked hnumber hanswer h hfs b rfl
    exact congrArg (Progress.mk · (fs.length * (cycles + 1))) hboard

theorem exists_eq_stateAfter {b : Board} (h : RecoversAfter failing timeline fs source)
    (hfs : fs ≠ []) (hsteps : ReflTransGen (Step timeline fs stopAt) ⟨b, 0⟩ q) :
    ∃ cycles ≤ stopAt ⌈/⌉ fs.length, q = stateAfter failing fs source b cycles := by
  induction hsteps with
  | refl =>
    refine ⟨0, Nat.zero_le _, ?_⟩
    rw [stateAfter, boardAfter_of_le (Nat.zero_le _)]
    rfl
  | tail _ hstep ih =>
    obtain ⟨cycles, -, rfl⟩ := ih
    obtain ⟨hlt, rfl⟩ := hstep.eq_stateAfter h hfs
    exact ⟨cycles + 1, hlt, rfl⟩

theorem step_cycle (hgoing : p.reads < stopAt) :
    Step timeline fs stopAt p (cycle timeline fs p) := by
  have hnumber : ((List.range fs.length).map fun i => p.reads + i + 1).Perm
      (List.range' (p.reads + 1) fs.length) := by
    rw [List.range'_eq_map_range]
    have hsame : (fun i => p.reads + i + 1) = fun i => p.reads + 1 + i := by
      funext i
      omega
    rw [hsame]
  exact .cycle (.inOrder (fun i => timeline (p.reads + i + 1)) fs) _ hgoing rfl hnumber
    fun _ _ => rfl

theorem not_step_iff : (∀ q, ¬ Step timeline fs stopAt p q) ↔ stopAt ≤ p.reads := by
  constructor
  · intro hnone
    apply le_of_not_gt
    intro hgoing
    exact hnone _ (step_cycle hgoing)
  · rintro hle _ ⟨c, number, hgoing, -⟩
    omega

/-- There is no run of the loop without end. -/
theorem wellFounded_step (hfs : fs ≠ []) :
    WellFounded fun q p => Step timeline fs stopAt p q := by
  apply Subrelation.wf (r := InvImage (· < ·) fun p : Progress => stopAt - p.reads) _
    (InvImage.wf _ Nat.lt_wfRel.wf)
  rintro q p ⟨c, number, hgoing, -⟩
  have hlength : 0 < fs.length := List.length_pos_iff.2 hfs
  show stopAt - (p.reads + fs.length) < stopAt - p.reads
  omega

theorem reaches_cyclesUntil (cycles : Nat) (p : Progress) :
    ReflTransGen (Step timeline fs stopAt) p (cyclesUntil timeline fs stopAt cycles p) := by
  induction cycles generalizing p with
  | zero => exact .refl
  | succ cycles ih =>
    rw [cyclesUntil]
    split
    · exact .refl
    · next hgoing => exact .head (step_cycle (Nat.lt_of_not_le hgoing)) (ih _)

theorem le_reads_cyclesUntil (hfs : fs ≠ []) {cycles : Nat} {p : Progress}
    (h : stopAt ≤ p.reads + cycles) :
    stopAt ≤ (cyclesUntil timeline fs stopAt cycles p).reads := by
  have hlength : 0 < fs.length := List.length_pos_iff.2 hfs
  induction cycles generalizing p with
  | zero => exact h
  | succ cycles ih =>
    rw [cyclesUntil]
    split
    · next hle => exact hle
    · apply ih
      show stopAt ≤ p.reads + fs.length + cycles
      omega

/-- A run of the loop that has ended has made just the cycles that reach the read that stops it. -/
theorem eq_stateAfter_of_not_step {b : Board} (h : RecoversAfter failing timeline fs source)
    (hfs : fs ≠ []) (hsteps : ReflTransGen (Step timeline fs stopAt) ⟨b, 0⟩ q)
    (hend : ∀ r, ¬ Step timeline fs stopAt q r) :
    q = stateAfter failing fs source b (stopAt ⌈/⌉ fs.length) := by
  obtain ⟨cycles, hle, rfl⟩ := exists_eq_stateAfter h hfs hsteps
  have hreads : stopAt ≤ fs.length * cycles := not_step_iff.1 hend
  have hge := (ceilDiv_le_iff_le_mul (List.length_pos_iff.2 hfs)).2 hreads
  rw [Nat.le_antisymm hle hge]

end Run

/-- The loop, told to stop during the read numbered `stopAt`, while the answers to the first
`failing` reads are at fault and all others are those of a constant source. Whatever the order of
the reads within a cycle and of their answers, the loop ends, and always alike: it completes the
cycle that is under way and begins no other. If the source can be read and the last cycle comes
after all the failing reads, the board then has what is read from it, published anew by each cycle
after these. Otherwise the board is as at the start. A loop that is told to stop before it starts
makes no read. -/
theorem run_recovers {timeline : Timeline} {fs : List UInt32} {failing : Nat} {source : Source}
    (hfs : fs ≠ []) (h : RecoversAfter failing timeline fs source) (stopAt : Nat) (b : Board) :
    let n := fs.length
    let last := run timeline fs stopAt b
    (WellFounded fun q p => Step timeline fs stopAt p q) ∧
    (∀ q, (ReflTransGen (Step timeline fs stopAt) ⟨b, 0⟩ q ∧ ∀ r, ¬ Step timeline fs stopAt q r) ↔
      q = last) ∧
    last.reads = n * (stopAt ⌈/⌉ n) ∧
    (∀ s, Snapshot.read source fs = .ok s → 1 ≤ stopAt → failing ≤ n * (stopAt ⌈/⌉ n - 1) →
      last.board = ⟨s, b.number + (stopAt ⌈/⌉ n - failing ⌈/⌉ n)⟩) ∧
    ((∃ e, Snapshot.read source fs = .error e) ∨ n * (stopAt ⌈/⌉ n - 1) < failing →
      last.board = b) ∧
    run timeline fs 0 b = ⟨b, 0⟩ := by
  intro n last
  have hn : 0 < n := List.length_pos_iff.2 hfs
  have hreach : ReflTransGen (Step timeline fs stopAt) ⟨b, 0⟩ last := reaches_cyclesUntil stopAt _
  have hend : ∀ r, ¬ Step timeline fs stopAt last r :=
    not_step_iff.2 (le_reads_cyclesUntil hfs (by omega))
  have hlast := eq_stateAfter_of_not_step h hfs hreach hend
  refine ⟨wellFounded_step hfs, fun q => ⟨?_, ?_⟩, ?_, ?_, ?_, rfl⟩
  · rintro ⟨hsteps, hq⟩
    rw [hlast]
    exact eq_stateAfter_of_not_step h hfs hsteps hq
  · rintro rfl
    exact ⟨hreach, hend⟩
  · rw [hlast]
    rfl
  · intro s hs hstop hfailing
    rw [hlast]
    exact boardAfter_of_lt hs ((ceilDiv_lt_ceilDiv_iff hn).2 ⟨hstop, hfailing⟩)
  · intro hfault
    rw [hlast]
    rcases hfault with ⟨e, he⟩ | hlt
    · exact boardAfter_of_error he _ _
    · apply boardAfter_of_le
      apply Nat.le_of_not_lt
      intro hrecovered
      exact Nat.not_le_of_lt hlt ((ceilDiv_lt_ceilDiv_iff hn).1 hrecovered).2

/-- A source whose first read fails and that has nothing filed but an empty line 11. -/
def hesitant : Timeline := fun k f =>
  if k = 1 then .error .lockPoisoned
  else if f = 11 then .ok ⟨11, .empty⟩ else .error (.notFound f)

theorem run_hesitant :
    (run hesitant [8, 11] 3 .initial).reads = 4 ∧
      (run hesitant [8, 11] 3 .initial).board = ⟨.ofLines [⟨11, .empty⟩], 1⟩ ∧
      (run hesitant [8, 11] 1 .initial).reads = 2 ∧
      (run hesitant [8, 11] 1 .initial).board = .initial := by
  have hrecovers : RecoversAfter 1 hesitant [8, 11] (hesitant 2) := by
    constructor
    · intro k hk hle f _
      obtain rfl : k = 1 := by omega
      exact ⟨_, .source nofun⟩
    · intro k hk f _
      have hne : k ≠ 1 := by omega
      simp [hesitant, hne]
  have hread : Snapshot.read (hesitant 2) [8, 11] = .ok (.ofLines [⟨11, .empty⟩]) := by
    rw [Snapshot.read, Cycle.reading_eq]
    rfl
  obtain ⟨-, -, hreads, hboard, -⟩ := run_recovers (by simp) hrecovers 3 .initial
  obtain ⟨-, -, hreads', -, hboard', -⟩ := run_recovers (by simp) hrecovers 1 .initial
  exact ⟨hreads, hboard _ hread (by decide) (by decide), hreads', hboard' (.inr (by decide))⟩

end Refresh

end ReleaseCatalog
