import ReleaseCatalog.Proofs.Text.Blank
import ReleaseCatalog.Version.Range

namespace ReleaseCatalog

open Text (trim)

theorem exists_of_bind_eq_ok {ε α β : Type} {x : Except ε α} {f : α → Except ε β} {b : β}
    (h : x >>= f = .ok b) : ∃ a, x = .ok a ∧ f a = .ok b := by
  cases x with
  | error e => cases h
  | ok a => exact ⟨a, rfl, h⟩

namespace Interval

/-- The upper bound does not rank below the lower one. -/
def HasOrderedBounds (i : Interval) : Prop := ∀ l ∈ i.lower, ∀ u ∈ i.upper, (compare l u).isLE

/-- The interval has an upper bound, the other one a lower bound, and the latter does not rank below
the former. -/
def EndsBefore (i j : Interval) : Prop := ∃ u ∈ i.upper, ∃ l ∈ j.lower, (compare u l).isLE

theorem isLE_of_compare_ne_lt {v w : Version} (h : compare w v ≠ .lt) : (compare v w).isLE := by
  have hswap : compare v w = (compare w v).swap := Std.OrientedCmp.eq_swap
  rw [hswap]
  cases hcompare : compare w v with
  | lt => exact absurd hcompare h
  | eq => rfl
  | gt => rfl

theorem endsBefore_of_not_overlaps {i j : Interval} (h : i.overlaps j = false) :
    i.EndsBefore j := by
  rw [overlaps] at h
  split at h
  · next u l hu hl =>
    refine ⟨u, hu, l, hl, isLE_of_compare_ne_lt fun hlt => ?_⟩
    rw [hlt] at h
    cases h
  · cases h

theorem hasOrderedBounds_of_parse {s : List Char} {i : Interval} (h : parse s = .ok i) :
    i.HasOrderedBounds := by
  simp only [parse] at h
  split at h
  case isTrue =>
    split at h
    · cases h
    · obtain ⟨lower, -, h⟩ := exists_of_bind_eq_ok h
      obtain ⟨upper, -, h⟩ := exists_of_bind_eq_ok h
      split at h
      · next l u hbounds =>
        obtain ⟨rfl, rfl⟩ := Prod.mk.inj hbounds
        split at h
        · cases h
        · next hle =>
          cases h
          rintro _ ⟨⟩ _ ⟨⟩
          exact isLE_of_compare_ne_lt fun hlt => hle (beq_iff_eq.2 hlt)
      · next hmissing =>
        cases h
        intro l hl u hu
        exact absurd (Prod.ext hl hu) (hmissing l u)
  case isFalse =>
    split at h
    · obtain ⟨v, -, h⟩ := exists_of_bind_eq_ok h
      cases h
      rintro _ ⟨⟩ _ ⟨⟩
      exact Ordering.isLE_of_eq_eq Std.ReflCmp.compare_self
    · cases h

theorem EndsBefore.trans {i j k : Interval} (hij : i.EndsBefore j) (hj : j.HasOrderedBounds)
    (hjk : j.EndsBefore k) : i.EndsBefore k := by
  obtain ⟨u, hu, l, hl, hul⟩ := hij
  obtain ⟨u', hu', l', hl', hul'⟩ := hjk
  refine ⟨u, hu, l', hl', ?_⟩
  exact Std.TransCmp.isLE_trans (Std.TransCmp.isLE_trans hul (hj l hl u' hu')) hul'

theorem isLE_of_admitsAbove {inclusive : Bool} {o : Ordering}
    (h : admitsAbove inclusive o = true) : o.isLE := by
  cases o with
  | gt => cases h
  | _ => rfl

variable {i j : Interval} {v w : Version}

theorem isLE_of_contains (h : i.contains v = true) :
    (∀ l ∈ i.lower, (compare l v).isLE) ∧ ∀ u ∈ i.upper, (compare v u).isLE := by
  rw [contains, Bool.and_eq_true, Option.all_eq_true, Option.all_eq_true] at h
  exact ⟨fun l hl => isLE_of_admitsAbove (h.1 l hl), fun u hu => isLE_of_admitsAbove (h.2 u hu)⟩

end Interval

/-- Intervals with their bounds in order, of which each ends before those behind it. -/
structure AreSeparated (is : List Interval) : Prop where
  hasOrderedBounds : ∀ i ∈ is, i.HasOrderedBounds
  endsBefore : is.Pairwise Interval.EndsBefore

theorem areSeparated_nil : AreSeparated [] := ⟨by simp, .nil⟩

theorem AreSeparated.concat {seen : List Interval} {i : Interval} (h : AreSeparated seen.reverse)
    (hi : i.HasOrderedBounds) (hlast : ∀ p ∈ seen.head?, p.EndsBefore i) :
    AreSeparated (i :: seen).reverse := by
  refine ⟨?_, ?_⟩
  · intro j hj
    rcases List.mem_cons.1 (List.mem_reverse.1 hj) with rfl | hj
    · exact hi
    · exact h.hasOrderedBounds j (List.mem_reverse.2 hj)
  · have hpairs := List.pairwise_reverse.1 h.endsBefore
    rw [List.pairwise_reverse, List.pairwise_cons]
    refine ⟨?_, hpairs⟩
    cases seen with
    | nil => simp
    | cons p seen =>
      have hp := hlast p rfl
      intro j hj
      rcases List.mem_cons.1 hj with rfl | hj
      · exact hp
      · exact ((List.pairwise_cons.1 hpairs).1 j hj).trans (h.hasOrderedBounds p (by simp)) hp

namespace VersionRange

/-- The run over the pieces keeps the intervals apart, and leaves at least one where there was an
interval or a piece. -/
theorem areSeparated_of_ofPieces {spec : String} {seen is : List Interval} {pieces : List Piece}
    (h : ofPieces spec seen pieces = .ok (.intervals is)) (hseen : AreSeparated seen.reverse) :
    AreSeparated is ∧ (seen ≠ [] ∨ pieces ≠ [] → is ≠ []) := by
  induction pieces generalizing seen with
  | nil =>
    rw [ofPieces] at h
    cases h
    exact ⟨hseen, by simp⟩
  | cons piece pieces ih =>
    cases piece with
    | unclosed => cases h
    | bracketed s =>
      rw [ofPieces] at h
      obtain ⟨i, hi, h⟩ := exists_of_bind_eq_ok h
      split at h
      · cases h
      · next hoverlaps =>
        have hlast : ∀ p ∈ seen.head?, p.EndsBefore i := by
          intro p hp
          apply Interval.endsBefore_of_not_overlaps
          rw [Option.mem_def.1 hp] at hoverlaps
          exact eq_false_of_ne_true hoverlaps
        obtain ⟨hsep, hne⟩ := ih h (hseen.concat (Interval.hasOrderedBounds_of_parse hi) hlast)
        exact ⟨hsep, fun _ => hne (.inl (List.cons_ne_nil i seen))⟩
    | rest s =>
      rw [ofPieces] at h
      split at h
      · cases hbound : bound s with
        | error e => rw [hbound] at h; cases h
        | ok v => rw [hbound] at h; cases h
      · cases h

theorem piecesWithin_ne_nil (seen s : List Char) : piecesWithin seen s ≠ [] := by
  induction s generalizing seen with
  | nil => simp [piecesWithin]
  | cons c s ih =>
    rw [piecesWithin]
    split
    · exact List.cons_ne_nil _ _
    · exact ih _

theorem piecesBetween_ne_nil {s : List Char} (hne : s ≠ [])
    (hhead : ∀ c ∈ s.head?, Text.isBlank c = false) : piecesBetween false s ≠ [] := by
  cases s with
  | nil => exact absurd rfl hne
  | cons c s =>
    rw [piecesBetween, hhead c rfl, Bool.and_false, if_neg Bool.false_ne_true,
      if_neg Bool.false_ne_true]
    split
    · exact piecesWithin_ne_nil _ _
    · exact List.cons_ne_nil _ _

theorem areSeparated_of_parse {spec : String} {is : List Interval}
    (h : parse spec = .ok (.intervals is)) : AreSeparated is ∧ is ≠ [] := by
  rw [parse] at h
  split at h
  · cases h
  · next hne =>
    obtain ⟨hsep, hnonempty⟩ := areSeparated_of_ofPieces h areSeparated_nil
    refine ⟨hsep, hnonempty (.inr (piecesBetween_ne_nil ?_ fun c => Text.isBlank_head?_trim))⟩
    simpa using hne

/-- The intervals of a range that was read ascend without overlapping: there is one, each has its
bounds in order, and of any two the first ends where the second begins or before that. So what the
first contains ranks below what the second contains, but for versions of the rank of a bound that
they share. -/
theorem ascending_of_parse {spec : String} {is : List Interval}
    (h : parse spec = .ok (.intervals is)) :
    is ≠ [] ∧
    (∀ i ∈ is, ∀ l ∈ i.lower, ∀ u ∈ i.upper, (compare l u).isLE) ∧
    is.Pairwise fun i j => ∃ u ∈ i.upper, ∃ l ∈ j.lower, (compare u l).isLE ∧
      (∀ v w, i.contains v = true → j.contains w = true → (compare v w).isLE) ∧
      ∀ v, i.contains v = true → j.contains v = true →
        compare v u = .eq ∧ compare v l = .eq := by
  obtain ⟨hsep, hne⟩ := areSeparated_of_parse h
  refine ⟨hne, hsep.hasOrderedBounds, hsep.endsBefore.imp ?_⟩
  rintro i j ⟨u, hu, l, hl, hul⟩
  refine ⟨u, hu, l, hl, hul, ?_, ?_⟩
  · intro v w hv hw
    have hvu := (Interval.isLE_of_contains hv).2 u hu
    have hlw := (Interval.isLE_of_contains hw).1 l hl
    exact Std.TransCmp.isLE_trans (Std.TransCmp.isLE_trans hvu hul) hlw
  · intro v hv hw
    have hvu := (Interval.isLE_of_contains hv).2 u hu
    have hlv := (Interval.isLE_of_contains hw).1 l hl
    exact ⟨Std.OrientedCmp.isLE_antisymm hvu (Std.TransCmp.isLE_trans hul hlv),
      Std.OrientedCmp.isLE_antisymm (Std.TransCmp.isLE_trans hvu hul) hlv⟩

/-- All versions up to 8. -/
def upTo8 : Interval := ⟨none, false, some (.release 8 0 0 0), true⟩

/-- The versions after 8 and before a nightly build of 11.0.4. -/
def after8 : Interval :=
  ⟨some (.release 8 0 0 0), false,
    some (Components.version ⟨11, 0, 4, some "beta", none, 0, none, none⟩), false⟩

/-- Three intervals that meet in one bound, the first two parted by a comma, the others by a blank. -/
theorem ascending_of_parse_meeting :
    parse "(,8.0], [8.0] (8.0,11.0.4-beta)" =
        .ok (.intervals [upTo8, .exact (.release 8 0 0 0), after8]) ∧
      (∀ v w, upTo8.contains v = true → after8.contains w = true → (compare v w).isLE) ∧
      ∀ v, upTo8.contains v = true → (Interval.exact (.release 8 0 0 0)).contains v = true →
        compare v (.release 8 0 0 0) = .eq := by
  have hparse : parse "(,8.0], [8.0] (8.0,11.0.4-beta)" =
      .ok (.intervals [upTo8, .exact (.release 8 0 0 0), after8]) := by decide +kernel
  obtain ⟨-, -, hpairs⟩ := ascending_of_parse hparse
  have hfirst := (List.pairwise_cons.1 hpairs).1
  obtain ⟨_, -, _, -, -, hbelow, -⟩ := hfirst after8 (by simp)
  obtain ⟨_, ⟨⟩, _, -, -, -, hshared⟩ := hfirst (.exact (.release 8 0 0 0)) (by simp)
  exact ⟨hparse, hbelow, fun v hv hw => (hshared v hv hw).1⟩

end VersionRange

end ReleaseCatalog
