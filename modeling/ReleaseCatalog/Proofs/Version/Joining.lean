import ReleaseCatalog.Proofs.Version.Separation
import ReleaseCatalog.Proofs.Version.Specification

namespace ReleaseCatalog.VersionRange

open Text (isBlank trim)

/-- One comma, or none. -/
def commaText (comma : Bool) : List Char := if comma then [','] else []

/-- A bracketed text and what stands behind it: blanks, and among them a comma or none. -/
structure Entry where
  bracketed : Bracketed
  joint : Padded Bool

def Entry.text (x : Entry) : List Char := x.bracketed.text ++ x.joint.text commaText

def listing (xs : List Entry) : List Char := xs.flatMap Entry.text

theorem listing_cons (x : Entry) (xs : List Entry) :
    listing (x :: xs) = x.bracketed.text ++ (x.joint.text commaText ++ listing xs) := by
  rw [listing, List.flatMap_cons, Entry.text, List.append_assoc]
  rfl

theorem piecesBetween_joint (j : Padded Bool) (s : List Char) :
    piecesBetween true (j.text commaText ++ s) = piecesBetween (!j.content) s := by
  rw [Padded.text, List.append_assoc, piecesBetween_append j.isBlank_before, List.append_assoc]
  cases j.content with
  | false => exact piecesBetween_append j.isBlank_after true s
  | true =>
    exact (piecesBetween_comma (j.after ++ s)).trans (piecesBetween_append j.isBlank_after false s)

theorem piecesBetween_listing (xs : List Entry) (comma : Bool) :
    piecesBetween comma (listing xs) = xs.map fun x => .bracketed x.bracketed.text := by
  induction xs generalizing comma with
  | nil => rfl
  | cons x xs ih =>
    rw [listing_cons, piecesBetween_bracketed, piecesBetween_joint, ih]
    rfl

/-- The pieces of a text that starts with the first of them. -/
def piecesFrom : List Char → List Piece
  | [] => []
  | c :: s => if opens c then piecesWithin [c] s else [.rest (c :: s)]

/-- Blanks and at most one comma are passed over up to the first piece, the comma only where there
may be one. -/
theorem exists_joint (comma : Bool) (s : List Char) :
    ∃ (j : Padded Bool) (rest : List Char), (j.content = true → comma = true) ∧
      s = j.text commaText ++ rest ∧ piecesBetween comma s = piecesFrom rest := by
  induction s generalizing comma with
  | nil => exact ⟨⟨[], false, [], by simp, by simp⟩, [], by simp, rfl, rfl⟩
  | cons c s ih =>
    rw [piecesBetween]
    split
    case isTrue hblank =>
      obtain ⟨j, rest, hcomma, rfl, hpieces⟩ := ih comma
      have hbefore : ∀ d ∈ c :: j.before, isBlank d = true :=
        List.forall_mem_cons.2 ⟨hblank, j.isBlank_before⟩
      exact ⟨{ j with before := c :: j.before, isBlank_before := hbefore }, rest, hcomma, rfl,
        hpieces⟩
    case isFalse =>
      split
      case isTrue hpassed =>
        obtain ⟨hc, hcomma⟩ := Bool.and_eq_true_iff.1 hpassed
        obtain ⟨j, rest, hnone, rfl, hpieces⟩ := ih false
        -- the comma has been passed over, so the joint behind it is of blanks alone
        have hjoint : j.text commaText = j.before ++ j.after := by
          rw [Padded.text, eq_false_of_ne_true fun h => Bool.false_ne_true (hnone h)]
          rfl
        have hafter : ∀ d ∈ j.before ++ j.after, isBlank d = true :=
          List.forall_mem_append.2 ⟨j.isBlank_before, j.isBlank_after⟩
        refine ⟨⟨[], true, j.before ++ j.after, by simp, hafter⟩, rest, fun _ => hcomma, ?_,
          hpieces⟩
        rw [beq_iff_eq.1 hc, hjoint]
        rfl
      case isFalse =>
        exact ⟨⟨[], false, [], by simp, by simp⟩, c :: s, by simp, rfl, rfl⟩

theorem exists_of_piecesWithin {seen s w : List Char} {pieces : List Piece}
    (h : piecesWithin seen s = .bracketed w :: pieces) :
    ∃ (inner : List Char) (closing : Char) (rest : List Char), s = inner ++ closing :: rest ∧
      (∀ c ∈ inner, closes c = false) ∧ closes closing = true ∧
      w = seen.reverse ++ (inner ++ [closing]) ∧ pieces = piecesBetween true rest := by
  induction s generalizing seen with
  | nil => cases h
  | cons c s ih =>
    rw [piecesWithin] at h
    split at h
    · next hc =>
      obtain ⟨hw, rfl⟩ := List.cons.inj h
      obtain rfl := Piece.bracketed.inj hw
      exact ⟨[], c, s, rfl, by simp, hc, by simp, rfl⟩
    · next hc =>
      obtain ⟨inner, closing, rest, rfl, hinner, hclosing, rfl, rfl⟩ := ih h
      have hall : ∀ d ∈ c :: inner, closes d = false :=
        List.forall_mem_cons.2 ⟨eq_false_of_ne_true hc, hinner⟩
      exact ⟨c :: inner, closing, rest, rfl, hall, hclosing, by simp, rfl⟩

theorem exists_of_piecesFrom {s w : List Char} {pieces : List Piece}
    (h : piecesFrom s = .bracketed w :: pieces) :
    ∃ (b : Bracketed) (rest : List Char), s = b.text ++ rest ∧ w = b.text ∧
      pieces = piecesBetween true rest := by
  cases s with
  | nil => cases h
  | cons c s =>
    rw [piecesFrom] at h
    split at h
    · next hc =>
      obtain ⟨inner, closing, rest, rfl, hinner, hclosing, rfl, rfl⟩ := exists_of_piecesWithin h
      exact ⟨⟨c, inner, closing, hc, hinner, hclosing⟩, rest, by simp [Bracketed.text], rfl, rfl⟩
    · cases h

theorem eq_nil_of_piecesFrom {s : List Char} (h : piecesFrom s = []) : s = [] := by
  cases s with
  | nil => rfl
  | cons c s =>
    rw [piecesFrom] at h
    split at h
    · exact absurd h (piecesWithin_ne_nil _ _)
    · cases h

/-- A text whose pieces are all bracketed is a listing of them. -/
theorem exists_listing {ws : List (List Char)} {comma : Bool} {s : List Char}
    (h : piecesBetween comma s = ws.map .bracketed) :
    ∃ (j : Padded Bool) (xs : List Entry), (j.content = true → comma = true) ∧
      s = j.text commaText ++ listing xs ∧ xs.map (·.bracketed.text) = ws := by
  induction ws generalizing comma s with
  | nil =>
    obtain ⟨j, rest, hcomma, rfl, hpieces⟩ := exists_joint comma s
    rw [h] at hpieces
    rw [eq_nil_of_piecesFrom hpieces.symm]
    exact ⟨j, [], hcomma, rfl, rfl⟩
  | cons w ws ih =>
    obtain ⟨j, rest, hcomma, rfl, hpieces⟩ := exists_joint comma s
    rw [h, List.map_cons] at hpieces
    obtain ⟨b, rest, rfl, rfl, hrest⟩ := exists_of_piecesFrom hpieces.symm
    obtain ⟨k, xs, -, rfl, rfl⟩ := ih hrest.symm
    exact ⟨j, ⟨b, k⟩ :: xs, hcomma, by rw [listing_cons], rfl⟩

theorem exists_listing_of_head? {ws : List (List Char)} {s : List Char}
    (h : piecesBetween false s = ws.map .bracketed) (hs : ∀ c ∈ s.head?, isBlank c = false) :
    ∃ xs : List Entry, s = listing xs ∧ xs.map (·.bracketed.text) = ws := by
  obtain ⟨j, xs, hcomma, rfl, hws⟩ := exists_listing h
  have hblank : ∀ c ∈ j.text commaText, isBlank c = true := by
    intro c hc
    rcases Padded.mem_text hc with hc | hc
    · exact hc
    · rw [eq_false_of_ne_true fun h => Bool.false_ne_true (hcomma h)] at hc
      cases hc
  cases hjoint : j.text commaText with
  | nil => exact ⟨xs, rfl, hws⟩
  | cons c t =>
    rw [hjoint] at hs hblank
    have hnot := hs c rfl
    rw [hblank c (List.mem_cons_self ..)] at hnot
    cases hnot

theorem isChain_head?_toList (seen : List Interval) :
    seen.head?.toList.IsChain fun i j => i.overlaps j = false := by
  cases seen with
  | nil => exact .nil
  | cons i seen => exact List.isChain_singleton i

theorem isChain_head?_toList_append_cons {seen more : List Interval} {i : Interval} :
    (seen.head?.toList ++ i :: more).IsChain (fun i j => i.overlaps j = false) ↔
      seen.head?.any (·.overlaps i) = false ∧
        (i :: more).IsChain fun i j => i.overlaps j = false := by
  cases seen with
  | nil => simp
  | cons p seen => simp [List.isChain_cons_cons]

theorem ofPieces_rest_ne (spec : String) (seen is : List Interval) (s : List Char)
    (pieces : List Piece) : ofPieces spec seen (.rest s :: pieces) ≠ .ok (.intervals is) := by
  intro h
  rw [ofPieces] at h
  split at h
  · cases hbound : bound s with
    | error e => rw [hbound] at h; cases h
    | ok v => rw [hbound] at h; cases h
  · cases h

theorem ofPieces_bracketed_iff {spec : String} {seen is : List Interval} {w : List Char}
    {pieces : List Piece} :
    ofPieces spec seen (.bracketed w :: pieces) = .ok (.intervals is) ↔
      ∃ i, Interval.parse w = .ok i ∧ seen.head?.any (·.overlaps i) = false ∧
        ofPieces spec (i :: seen) pieces = .ok (.intervals is) := by
  rw [ofPieces]
  constructor
  · intro h
    obtain ⟨i, hi, h⟩ := exists_of_bind_eq_ok h
    split at h
    · cases h
    · next hoverlaps => exact ⟨i, hi, eq_false_of_ne_true hoverlaps, h⟩
  · rintro ⟨i, hi, hoverlaps, hrest⟩
    rw [hi]
    show (if _ then _ else _) = _
    rw [hoverlaps]
    exact hrest

/-- The run ends in intervals exactly where every piece is an interval that does not start before
the one in front of it ends. -/
theorem ofPieces_eq_intervals_iff {spec : String} {seen is : List Interval} {pieces : List Piece} :
    ofPieces spec seen pieces = .ok (.intervals is) ↔
      ∃ (ws : List (List Char)) (more : List Interval), pieces = ws.map .bracketed ∧
        ws.map Interval.parse = more.map .ok ∧ is = seen.reverse ++ more ∧
        (seen.head?.toList ++ more).IsChain fun i j => i.overlaps j = false := by
  constructor
  · intro h
    induction pieces generalizing seen with
    | nil =>
      rw [ofPieces] at h
      cases h
      exact ⟨[], [], rfl, rfl, by simp, by simpa using isChain_head?_toList seen⟩
    | cons piece pieces ih =>
      cases piece with
      | unclosed => cases h
      | rest s => exact absurd h (ofPieces_rest_ne spec seen is s pieces)
      | bracketed w =>
        obtain ⟨i, hi, hoverlaps, hrest⟩ := ofPieces_bracketed_iff.1 h
        obtain ⟨ws, more, rfl, hmore, rfl, hchain⟩ := ih hrest
        refine ⟨w :: ws, i :: more, rfl, by simp [hi, hmore], by simp, ?_⟩
        exact isChain_head?_toList_append_cons.2 ⟨hoverlaps, hchain⟩
  · rintro ⟨ws, more, rfl, hmore, rfl, hchain⟩
    induction ws generalizing seen more with
    | nil =>
      obtain rfl := List.map_eq_nil_iff.1 hmore.symm
      simp [ofPieces]
    | cons w ws ih =>
      cases more with
      | nil => cases hmore
      | cons i more =>
        obtain ⟨hi, hmore⟩ := List.cons.inj hmore
        obtain ⟨hoverlaps, hchain⟩ := isChain_head?_toList_append_cons.1 hchain
        have hrest : ofPieces spec (i :: seen) (ws.map .bracketed) =
            .ok (.intervals ((i :: seen).reverse ++ more)) := ih more hmore hchain
        rw [List.reverse_cons, List.append_assoc] at hrest
        exact ofPieces_bracketed_iff.2 ⟨i, hi, hoverlaps, hrest⟩

/-- A text is read as a range of intervals exactly where it lists brackets, blanks around it apart:
one at least, each an interval that does not start before the one in front of it ends, and behind
each at most one comma. -/
theorem parse_eq_intervals_iff (spec : String) (is : List Interval) :
    parse spec = .ok (.intervals is) ↔
      ∃ xs : List Entry, xs ≠ [] ∧ trim spec.toList = listing xs ∧
        xs.map (fun x => Interval.parse x.bracketed.text) = is.map .ok ∧
        is.IsChain fun i j => i.overlaps j = false := by
  rw [parse]
  constructor
  · intro h
    split at h
    · cases h
    · next hne =>
      obtain ⟨ws, more, hws, hmore, rfl, hchain⟩ := ofPieces_eq_intervals_iff.1 h
      obtain ⟨xs, hxs, rfl⟩ := exists_listing_of_head? hws fun c => Text.isBlank_head?_trim
      refine ⟨xs, ?_, hxs, ?_, hchain⟩
      · rintro rfl
        exact hne (by rw [hxs]; rfl)
      · rw [List.map_map] at hmore
        exact hmore
  · rintro ⟨xs, hne, hxs, his, hchain⟩
    have hnonempty : (listing xs).isEmpty = false := by
      cases xs with
      | nil => exact absurd rfl hne
      | cons x xs => rfl
    rw [hxs, hnonempty, piecesBetween_listing]
    apply ofPieces_eq_intervals_iff.2
    refine ⟨xs.map (·.bracketed.text), is, by rw [List.map_map]; rfl, ?_, rfl, hchain⟩
    rw [List.map_map]
    exact his

/-- Bracketed texts with blanks around them, joined by commas. -/
def commaJoined (xs : List (Padded Bracketed)) : List Char :=
  [','].intercalate (xs.map (Padded.text Bracketed.text))

theorem commaJoined_singleton (x : Padded Bracketed) :
    commaJoined [x] = x.text Bracketed.text := by
  simp [commaJoined]

theorem commaJoined_cons_cons (x y : Padded Bracketed) (xs : List (Padded Bracketed)) :
    commaJoined (x :: y :: xs) = x.text Bracketed.text ++ ',' :: commaJoined (y :: xs) := by
  simp [commaJoined, List.intercalate_cons_cons]

theorem forall_closes {P : Char → Prop} (hsquare : P ']') (hround : P ')') {c : Char}
    (h : closes c = true) : P c := by
  rw [closes, Bool.or_eq_true, beq_iff_eq, beq_iff_eq] at h
  rcases h with rfl | rfl
  · exact hsquare
  · exact hround

theorem closes_of_opens {c : Char} (h : opens c = true) : closes c = false :=
  forall_opens (P := fun c => closes c = false) (by decide) (by decide) h

theorem isBlank_of_closes {c : Char} (h : closes c = true) : isBlank c = false :=
  forall_closes (P := fun c => isBlank c = false) (by decide) (by decide) h

theorem closes_of_isBlank {c : Char} (h : isBlank c = true) : closes c = false := by
  apply eq_false_of_ne_true
  intro hc
  rw [isBlank_of_closes hc] at h
  cases h

theorem countP_closes_padded (x : Padded Bracketed) :
    (x.text Bracketed.text).countP closes = 1 := by
  have hblank {w : List Char} (hw : ∀ c ∈ w, isBlank c = true) : w.countP closes = 0 :=
    List.countP_eq_zero.2 fun c hc => ne_true_of_eq_false (closes_of_isBlank (hw c hc))
  have hinner : x.content.inner.countP closes = 0 :=
    List.countP_eq_zero.2 fun c hc => ne_true_of_eq_false (x.content.closes_inner c hc)
  simp [Padded.text, Bracketed.text, hblank x.isBlank_before, hblank x.isBlank_after, hinner,
    closes_of_opens x.content.opens_opening, x.content.closes_closing]

theorem countP_closes_commaJoined (xs : List (Padded Bracketed)) :
    (commaJoined xs).countP closes = xs.length := by
  induction xs with
  | nil => rfl
  | cons x xs ih =>
    cases xs with
    | nil => rw [commaJoined_singleton, countP_closes_padded, List.length_singleton]
    | cons y ys =>
      have hcomma : ¬ closes ',' = true := by decide
      rw [commaJoined_cons_cons, List.countP_append, countP_closes_padded,
        List.countP_cons_of_neg hcomma, ih, Nat.add_comm]
      rfl

theorem comma_mem_commaJoined {xs : List (Padded Bracketed)} (h : 1 < xs.length) :
    ',' ∈ commaJoined xs := by
  match xs, h with
  | x :: y :: ys, _ =>
    rw [commaJoined_cons_cons]
    exact List.mem_append_right _ (List.mem_cons_self ..)

theorem exists_end_commaJoined {xs : List (Padded Bracketed)} (h : xs ≠ []) :
    ∃ (s : List Char) (c : Char) (t : List Char), commaJoined xs = s ++ c :: t ∧
      closes c = true ∧ ∀ d ∈ t, isBlank d = true := by
  induction xs with
  | nil => exact absurd rfl h
  | cons x xs ih =>
    cases xs with
    | nil =>
      refine ⟨x.before ++ x.content.opening :: x.content.inner, x.content.closing, x.after, ?_,
        x.content.closes_closing, x.isBlank_after⟩
      simp [commaJoined_singleton, Padded.text, Bracketed.text]
    | cons y ys =>
      obtain ⟨s, c, t, hend, hc, ht⟩ := ih (List.cons_ne_nil y ys)
      refine ⟨x.text Bracketed.text ++ ',' :: s, c, t, ?_, hc, ht⟩
      simp [commaJoined_cons_cons, hend]

theorem getLast?_commaJoined (xs : List (Padded Bracketed)) :
    (commaJoined xs).getLast? ≠ some ',' := by
  by_cases hne : xs = []
  · subst hne
    decide
  · obtain ⟨s, c, t, hend, hc, ht⟩ := exists_end_commaJoined hne
    rw [hend, List.getLast?_append_cons]
    intro hlast
    rcases List.mem_cons.1 (List.mem_of_getLast? hlast) with rfl | hmem
    · exact absurd hc (by decide)
    · exact absurd (ht _ hmem) (by decide)

/-- Between two intervals a missing comma is passed over, and so is a comma behind the last. -/
theorem parse_not_commaJoined :
    (parse "[8.0][9.0]" =
        .ok (.intervals [.exact (.release 8 0 0 0), .exact (.release 9 0 0 0)]) ∧
      ∀ xs, trim "[8.0][9.0]".toList ≠ commaJoined xs) ∧
    (parse "[8.0]," = .ok (.intervals [.exact (.release 8 0 0 0)]) ∧
      ∀ xs, trim "[8.0],".toList ≠ commaJoined xs) := by
  refine ⟨⟨by decide +kernel, ?_⟩, by decide +kernel, ?_⟩
  · intro xs h
    have hcount := countP_closes_commaJoined xs
    rw [← h] at hcount
    have hlength : xs.length = 2 := hcount.symm.trans (by decide +kernel)
    have hcomma : ',' ∈ commaJoined xs := comma_mem_commaJoined (by omega)
    rw [← h] at hcomma
    revert hcomma
    decide +kernel
  · intro xs h
    apply getLast?_commaJoined xs
    rw [← h]
    decide +kernel

end ReleaseCatalog.VersionRange
