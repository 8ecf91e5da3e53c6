import Mathlib.Data.List.Chain
import ReleaseCatalog.Proofs.Version.Clause

namespace ReleaseCatalog

open Text (isBlank trim trimStart trimEnd)

/-- The clauses as a specification, joined by commas. -/
def specification (clauses : List (Padded Clause)) : List Char :=
  [','].intercalate (clauses.map (Padded.text Clause.text))

theorem specification_cons_cons (c d : Padded Clause) (clauses : List (Padded Clause)) :
    specification (c :: d :: clauses) =
      c.text Clause.text ++ ',' :: specification (d :: clauses) := by
  simp [specification, List.intercalate_cons_cons]

theorem specification_singleton (c : Padded Clause) :
    specification [c] = c.text Clause.text := by
  simp [specification]

namespace VersionRange

theorem piecesBetween_append {x : List Char} (hx : ∀ c ∈ x, isBlank c = true) (comma : Bool)
    (s : List Char) : piecesBetween comma (x ++ s) = piecesBetween comma s := by
  induction x with
  | nil => rfl
  | cons c x ih =>
    rw [List.cons_append, piecesBetween, if_pos (hx c (List.mem_cons_self ..))]
    exact ih fun d hd => hx d (List.mem_cons_of_mem _ hd)

theorem piecesWithin_append {w : List Char} (hw : ∀ c ∈ w, closes c = false) (seen : List Char)
    {c : Char} (hc : closes c = true) (s : List Char) :
    piecesWithin seen (w ++ c :: s) =
      .bracketed (seen.reverse ++ (w ++ [c])) :: piecesBetween true s := by
  induction w generalizing seen with
  | nil =>
    rw [List.nil_append, piecesWithin, if_pos hc]
    simp
  | cons d w ih =>
    have hd : ¬ closes d = true := by
      rw [hw d (List.mem_cons_self ..)]
      decide
    rw [List.cons_append, piecesWithin, if_neg hd,
      ih fun e he => hw e (List.mem_cons_of_mem _ he)]
    simp

/-- A text from a bracket that opens to the first that closes. -/
structure Bracketed where
  opening : Char
  inner : List Char
  closing : Char
  opens_opening : opens opening = true
  closes_inner : ∀ c ∈ inner, closes c = false
  closes_closing : closes closing = true

def Bracketed.text (b : Bracketed) : List Char := b.opening :: (b.inner ++ [b.closing])

theorem forall_opens {P : Char → Prop} (hsquare : P '[') (hround : P '(') {c : Char}
    (h : opens c = true) : P c := by
  rw [opens, Bool.or_eq_true, beq_iff_eq, beq_iff_eq] at h
  rcases h with rfl | rfl
  · exact hsquare
  · exact hround

theorem isBlank_of_opens {c : Char} (h : opens c = true) : isBlank c = false :=
  forall_opens (P := fun c => isBlank c = false) (by decide) (by decide) h

theorem ne_comma_of_opens {c : Char} (h : opens c = true) : c ≠ ',' :=
  forall_opens (P := fun c => c ≠ ',') (by decide) (by decide) h

theorem piecesBetween_opens {c : Char} (h : opens c = true) (comma : Bool) (s : List Char) :
    piecesBetween comma (c :: s) = piecesWithin [c] s := by
  have hcomma : (c == ',' && comma) = false := by
    rw [beq_eq_false_iff_ne.2 (ne_comma_of_opens h), Bool.false_and]
  rw [piecesBetween, isBlank_of_opens h, hcomma, h]
  rfl

theorem piecesBetween_comma (s : List Char) :
    piecesBetween true (',' :: s) = piecesBetween false s := by
  rw [piecesBetween]
  rfl

theorem piecesBetween_bracketed (comma : Bool) (b : Bracketed) (s : List Char) :
    piecesBetween comma (b.text ++ s) = .bracketed b.text :: piecesBetween true s := by
  rw [Bracketed.text, List.cons_append, piecesBetween_opens b.opens_opening, List.append_assoc,
    List.singleton_append, piecesWithin_append b.closes_inner _ b.closes_closing]
  rfl

end VersionRange

theorem Clause.closes_inner (c : Clause) : ∀ d ∈ c.inner, VersionRange.closes d = false := by
  have hnone {α : Type} {write : α → List Char} {p : Padded α}
      (hname : ∀ d ∈ write p.content, ReleaseName.isNameChar d = true) {d : Char}
      (hd : d ∈ p.text write) : VersionRange.closes d = false := by
    apply eq_false_of_ne_true
    intro hclose
    rw [VersionRange.closes, Bool.or_eq_true, beq_iff_eq, beq_iff_eq] at hclose
    rcases hclose with rfl | rfl
    · exact not_mem_padded hname (by decide) hd
    · exact not_mem_padded hname (by decide) hd
  cases c with
  | single i j v => exact fun d hd => hnone (fun _ h => v.content.isNameChar_text h) hd
  | pair i j l u =>
    intro d hd
    rcases List.mem_append.1 hd with hd | hd
    · exact hnone (fun _ h => (mem_boundText h).2) hd
    · rcases List.mem_cons.1 hd with rfl | hd
      · rfl
      · exact hnone (fun _ h => (mem_boundText h).2) hd

def Clause.bracketed (c : Clause) : VersionRange.Bracketed where
  opening := openBracket c.lowerInclusive
  inner := c.inner
  closing := closeBracket c.upperInclusive
  opens_opening := by cases c.lowerInclusive <;> rfl
  closes_inner := c.closes_inner
  closes_closing := by cases c.upperInclusive <;> rfl

namespace VersionRange

/-- A clause is one piece, whatever follows it. -/
theorem piecesBetween_text (comma : Bool) (c : Padded Clause) (s : List Char) :
    piecesBetween comma (c.text Clause.text ++ s) =
      .bracketed c.content.text :: piecesBetween true (c.after ++ s) := by
  rw [Padded.text, List.append_assoc, piecesBetween_append c.isBlank_before, List.append_assoc]
  exact piecesBetween_bracketed comma c.content.bracketed (c.after ++ s)

theorem piecesBetween_specification {clauses : List (Padded Clause)} (hne : clauses ≠ [])
    (comma : Bool) : piecesBetween comma (specification clauses) =
      clauses.map fun c => .bracketed c.content.text := by
  induction clauses generalizing comma with
  | nil => exact absurd rfl hne
  | cons c clauses ih =>
    cases clauses with
    | nil =>
      have hpieces := piecesBetween_text comma c []
      rw [List.append_nil, piecesBetween_append c.isBlank_after, piecesBetween] at hpieces
      rw [specification_singleton, hpieces]
      rfl
    | cons d clauses =>
      rw [specification_cons_cons, piecesBetween_text, piecesBetween_append c.isBlank_after,
        piecesBetween_comma, ih (by simp)]
      rfl

end VersionRange

namespace Padded

variable {α : Type}

def flushLeft (p : Padded α) : Padded α := { p with before := [], isBlank_before := by simp }

def flushRight (p : Padded α) : Padded α := { p with after := [], isBlank_after := by simp }

end Padded

theorem isBlank_openBracket (i : Bool) : isBlank (Clause.openBracket i) = false := by
  cases i <;> decide

theorem isBlank_closeBracket (i : Bool) : isBlank (Clause.closeBracket i) = false := by
  cases i <;> decide

theorem trimStart_specification (c : Padded Clause) (clauses : List (Padded Clause)) :
    trimStart (specification (c :: clauses)) = specification (c.flushLeft :: clauses) := by
  have hsplit : specification (c :: clauses) =
      c.before ++ specification (c.flushLeft :: clauses) := by
    cases clauses with
    | nil => simp [specification_singleton, Padded.text, Padded.flushLeft]
    | cons d clauses => simp [specification_cons_cons, Padded.text, Padded.flushLeft]
  have hhead : ∀ d ∈ (specification (c.flushLeft :: clauses)).head?, isBlank d = false := by
    intro d hd
    cases clauses with
    | nil =>
      rw [specification_singleton] at hd
      cases hd
      exact isBlank_openBracket _
    | cons e clauses =>
      rw [specification_cons_cons] at hd
      cases hd
      exact isBlank_openBracket _
  rw [hsplit, Text.trimStart_append hhead, Text.trimStart_of_isBlank c.isBlank_before,
    List.nil_append]

theorem exists_trimEnd_specification {clauses : List (Padded Clause)} (hne : clauses ≠ []) :
    ∃ flush : List (Padded Clause), flush.map (·.content) = clauses.map (·.content) ∧
      trimEnd (specification clauses) = specification flush := by
  induction clauses with
  | nil => exact absurd rfl hne
  | cons c clauses ih =>
    cases clauses with
    | nil =>
      have hlast : ∀ d ∈ (c.before ++ c.content.text).getLast?, isBlank d = false := by
        intro d hd
        rw [Clause.text, ← List.cons_append, ← List.append_assoc, List.getLast?_append] at hd
        cases hd
        exact isBlank_closeBracket _
      refine ⟨[c.flushRight], rfl, ?_⟩
      rw [specification_singleton, specification_singleton, Padded.text, ← List.append_assoc,
        Text.trimEnd_append hlast, Text.trimEnd_of_isBlank c.isBlank_after]
      simp [Padded.text, Padded.flushRight]
    | cons d clauses =>
      obtain ⟨flush, hcontent, htrim⟩ := ih (by simp)
      have hcomma : ∀ e ∈ (c.text Clause.text ++ [',']).getLast?, isBlank e = false := by
        intro e he
        rw [List.getLast?_append] at he
        cases he
        decide
      refine ⟨c :: flush, by rw [List.map_cons, List.map_cons, hcontent], ?_⟩
      cases flush with
      | nil => cases hcontent
      | cons e flush =>
        rw [specification_cons_cons, specification_cons_cons, ← htrim, ← List.singleton_append,
          ← List.append_assoc, Text.trimEnd_append hcomma, List.append_assoc,
          List.singleton_append]

theorem exists_trim_specification {clauses : List (Padded Clause)} (hne : clauses ≠ []) :
    ∃ flush : List (Padded Clause), flush.map (·.content) = clauses.map (·.content) ∧
      trim (specification clauses) = specification flush := by
  cases clauses with
  | nil => exact absurd rfl hne
  | cons c clauses =>
    have hne : c.flushLeft :: clauses ≠ [] := by simp
    obtain ⟨flush, hcontent, htrim⟩ := exists_trimEnd_specification hne
    exact ⟨flush, hcontent, by rw [trim, trimStart_specification, htrim]⟩

/-- Whether a specification of the clauses is accepted: each is valid and follows the one in front
of it. -/
def AreAccepted (clauses : List Clause) : Prop :=
  (∀ c ∈ clauses, c.IsValid) ∧ clauses.IsChain Clause.Follows

/-- What a specification of the clauses is refused for: the fault of the first that is not valid or
does not follow the one in front of it. -/
inductive FirstFault (spec : String) : List Clause → RangeError → Prop where
  | own {before : List Clause} {c : Clause} {after : List Clause} (hbefore : AreAccepted before)
      (hc : ¬ c.IsValid) : FirstFault spec (before ++ c :: after) c.fault
  | overlap {before : List Clause} {previous c : Clause} {after : List Clause}
      (hbefore : AreAccepted (before ++ [previous])) (hc : c.IsValid)
      (hfollows : ¬ previous.Follows c) :
      FirstFault spec (before ++ previous :: c :: after) (.overlap spec)

theorem FirstFault.append {spec : String} {clauses : List Clause} {e : RangeError}
    (h : FirstFault spec clauses e) (more : List Clause) :
    FirstFault spec (clauses ++ more) e := by
  cases h with
  | own hbefore hc =>
    rw [List.append_assoc]
    exact .own hbefore hc
  | overlap hbefore hc hfollows =>
    rw [List.append_assoc]
    exact .overlap hbefore hc hfollows

theorem areAccepted_concat {clauses : List Clause} {c : Clause} :
    AreAccepted (clauses ++ [c]) ↔
      AreAccepted clauses ∧ c.IsValid ∧ ∀ p ∈ clauses.getLast?, p.Follows c := by
  simp only [AreAccepted, List.isChain_append, List.mem_append, List.mem_singleton]
  constructor
  · rintro ⟨hvalid, hchain, -, hlast⟩
    exact ⟨⟨fun d hd => hvalid d (.inl hd), hchain⟩, hvalid c (.inr rfl),
      fun p hp => hlast p hp c rfl⟩
  · rintro ⟨⟨hvalid, hchain⟩, hc, hlast⟩
    refine ⟨?_, hchain, List.isChain_singleton c, ?_⟩
    · rintro d (hd | rfl)
      · exact hvalid d hd
      · exact hc
    · rintro p hp _ ⟨⟩
      exact hlast p hp

theorem areAccepted_or_firstFault (spec : String) (clauses : List Clause) :
    AreAccepted clauses ∨ ∃ e, FirstFault spec clauses e := by
  induction clauses using List.reverseRecOn with
  | nil => exact .inl ⟨by simp, List.isChain_nil⟩
  | append_singleton clauses c ih =>
    rcases ih with haccepted | ⟨e, he⟩
    · by_cases hc : c.IsValid
      · rcases List.eq_nil_or_concat' clauses with rfl | ⟨before, p, rfl⟩
        · exact .inl (areAccepted_concat.2 ⟨haccepted, hc, by simp⟩)
        · by_cases hp : p.Follows c
          · refine .inl (areAccepted_concat.2 ⟨haccepted, hc, ?_⟩)
            simpa using hp
          · refine .inr ⟨.overlap spec, ?_⟩
            rw [List.append_assoc]
            exact .overlap haccepted hc hp
      · exact .inr ⟨_, .own haccepted hc⟩
    · exact .inr ⟨e, he.append [c]⟩

namespace VersionRange

def piece (c : Clause) : Piece := .bracketed c.text

variable {spec : String} {before : List Clause} {c : Clause}

theorem head?_reverse_intervals (before : List Clause) :
    (before.map Clause.interval).reverse.head? = before.getLast?.map Clause.interval := by
  rw [List.head?_reverse, List.getLast?_map]

theorem ofPieces_of_follows (hc : c.IsValid) (hlast : ∀ p ∈ before.getLast?, p.Follows c)
    (pieces : List Piece) :
    ofPieces spec (before.map Clause.interval).reverse (piece c :: pieces) =
      ofPieces spec ((before ++ [c]).map Clause.interval).reverse pieces := by
  have hoverlaps : (before.map Clause.interval).reverse.head?.any
      (·.overlaps c.interval) = false := by
    rw [head?_reverse_intervals]
    cases hp : before.getLast? with
    | none => rfl
    | some p => exact Clause.overlaps_eq_false.2 (hlast p hp)
  rw [piece, ofPieces, Clause.parse_text_of_isValid hc]
  show (if _ then _ else _) = _
  rw [hoverlaps]
  simp

theorem ofPieces_of_not_follows {p : Clause} (hc : c.IsValid) (hp : ¬ p.Follows c)
    (pieces : List Piece) :
    ofPieces spec ((before ++ [p]).map Clause.interval).reverse (piece c :: pieces) =
      .error (.overlap spec) := by
  have hoverlaps : p.interval.overlaps c.interval = true := by
    rw [← Bool.not_eq_false, Clause.overlaps_eq_false]
    exact hp
  rw [piece, ofPieces, Clause.parse_text_of_isValid hc, head?_reverse_intervals,
    List.getLast?_concat]
  show (if _ then _ else _) = _
  rw [Option.map_some, Option.any_some, hoverlaps]
  rfl

theorem ofPieces_of_not_isValid (hc : ¬ c.IsValid) (seen : List Interval) (pieces : List Piece) :
    ofPieces spec seen (piece c :: pieces) = .error c.fault := by
  rw [piece, ofPieces, Clause.parse_text_of_not_isValid hc]
  rfl

/-- The run takes in accepted clauses one after the other. -/
theorem ofPieces_append (h : AreAccepted before) (pieces : List Piece) :
    ofPieces spec [] (before.map piece ++ pieces) =
      ofPieces spec (before.map Clause.interval).reverse pieces := by
  induction before using List.reverseRecOn generalizing pieces with
  | nil => rfl
  | append_singleton before c ih =>
    obtain ⟨hbefore, hc, hlast⟩ := areAccepted_concat.1 h
    rw [List.map_append, List.append_assoc, ih hbefore]
    exact ofPieces_of_follows hc hlast pieces

theorem ofPieces_of_areAccepted {clauses : List Clause} (h : AreAccepted clauses) :
    ofPieces spec [] (clauses.map piece) = .ok (.intervals (clauses.map Clause.interval)) := by
  have hrun : ofPieces spec [] (clauses.map piece ++ []) = _ := ofPieces_append h []
  rw [List.append_nil] at hrun
  rw [hrun, ofPieces, List.reverse_reverse]

theorem ofPieces_of_firstFault {clauses : List Clause} {e : RangeError}
    (h : FirstFault spec clauses e) : ofPieces spec [] (clauses.map piece) = .error e := by
  cases h with
  | own hbefore hc =>
    rw [List.map_append, ofPieces_append hbefore]
    exact ofPieces_of_not_isValid hc _ _
  | @overlap before previous c after hbefore hc hfollows =>
    have hsplit : (before ++ previous :: c :: after).map piece =
        (before ++ [previous]).map piece ++ piece c :: after.map piece := by simp
    rw [hsplit, ofPieces_append hbefore]
    exact ofPieces_of_not_follows hc hfollows _

/-- A specification of clauses is read as their intervals exactly where they are accepted, and
refused for the first fault exactly where there is one. -/
theorem parse_specification {clauses : List (Padded Clause)} (hne : clauses ≠ []) :
    (∀ range, parse (String.ofList (specification clauses)) = .ok range ↔
        AreAccepted (clauses.map (·.content)) ∧
          range = .intervals (clauses.map fun c => c.content.interval)) ∧
      ∀ e, parse (String.ofList (specification clauses)) = .error e ↔
        FirstFault (String.ofList (trim (specification clauses))) (clauses.map (·.content)) e := by
  obtain ⟨flush, hcontent, htrim⟩ := exists_trim_specification hne
  have hflush : flush ≠ [] := by
    rintro rfl
    exact hne (List.map_eq_nil_iff.1 hcontent.symm)
  have hempty : (specification flush).isEmpty = false := by
    rw [List.isEmpty_eq_false_iff]
    intro hnil
    have hpieces := piecesBetween_specification hflush false
    rw [hnil, piecesBetween] at hpieces
    exact hflush (List.map_eq_nil_iff.1 hpieces.symm)
  have hparse : parse (String.ofList (specification clauses)) =
      ofPieces (String.ofList (trim (specification clauses))) []
        ((clauses.map (·.content)).map piece) := by
    rw [parse, String.toList_ofList, htrim, hempty, piecesBetween_specification hflush, ← hcontent,
      List.map_map]
    rfl
  have hok (h : AreAccepted (clauses.map (·.content))) :
      parse (String.ofList (specification clauses)) =
        .ok (.intervals (clauses.map fun c => c.content.interval)) := by
    rw [hparse, ofPieces_of_areAccepted h, List.map_map]
    rfl
  have herror {e : RangeError} (h : FirstFault (String.ofList (trim (specification clauses)))
      (clauses.map (·.content)) e) :
      parse (String.ofList (specification clauses)) = .error e := by
    rw [hparse, ofPieces_of_firstFault h]
  have hcases := areAccepted_or_firstFault (String.ofList (trim (specification clauses)))
    (clauses.map (·.content))
  constructor
  · intro range
    constructor
    · intro h
      rcases hcases with haccepted | ⟨e, he⟩
      · rw [hok haccepted] at h
        exact ⟨haccepted, (Except.ok.inj h).symm⟩
      · rw [herror he] at h
        cases h
    · rintro ⟨haccepted, rfl⟩
      exact hok haccepted
  · intro e
    constructor
    · intro h
      rcases hcases with haccepted | ⟨d, hd⟩
      · rw [hok haccepted] at h
        cases h
      · rw [herror hd] at h
        obtain rfl := Except.error.inj h
        exact hd
    · exact herror

/-- The plain version `major.0.0`. -/
def firstRelease (major : UInt32) (h : 1 ≤ major) : PlainVersion :=
  ⟨⟨major, 0, 0, none, none, 0, none, none⟩, h, rfl, by simp, by simp⟩

/-- The lines from 8 to 12, written as `[ 8.0.0 , 12.0.0)`. -/
def linesTo12 : Clause :=
  .pair true false ⟨[' '], some (firstRelease 8 (by decide)), [' '], by simp; rfl, by simp; rfl⟩
    ⟨[' '], some (firstRelease 12 (by decide)), [], by simp; rfl, by simp⟩

/-- The lines after 10, written as `(10.0.0,]`. -/
def linesAfter10 : Clause :=
  .pair false true ⟨[], some (firstRelease 10 (by decide)), [], by simp, by simp⟩
    ⟨[], none, [], by simp, by simp⟩

/-- Line 12 on its own, written as `[12.0.0]`. -/
def line12 : Clause := .single true true ⟨[], firstRelease 12 (by decide), [], by simp, by simp⟩

/-- The lines to 12 and then line 12, which share a bound. -/
def sharedBound : List (Padded Clause) :=
  [⟨[], linesTo12, [' '], by simp, by simp; rfl⟩, ⟨['\t'], line12, [], by simp; rfl, by simp⟩]

/-- The lines to 12 and then those after 10, which overlap. -/
def overlapping : List (Padded Clause) :=
  [⟨[], linesTo12, [' '], by simp, by simp; rfl⟩, ⟨['\t'], linesAfter10, [], by simp; rfl, by simp⟩]

theorem parse_sharedBound_overlapping :
    parse "[ 8.0.0 , 12.0.0) ,\t[12.0.0]" = .ok (.intervals
        [⟨some (.release 8 0 0 0), true, some (.release 12 0 0 0), false⟩,
          .exact (.release 12 0 0 0)]) ∧
      parse "[ 8.0.0 , 12.0.0) ,\t(10.0.0,]" =
        .error (.overlap "[ 8.0.0 , 12.0.0) ,\t(10.0.0,]") := by
  have hvalid : linesTo12.IsValid := by
    refine ⟨by decide +kernel, ?_⟩
    rintro _ ⟨⟩ _ ⟨⟩
    decide
  have haccepted : AreAccepted [linesTo12] :=
    ⟨by simpa using hvalid, List.isChain_singleton linesTo12⟩
  constructor
  · have hall : AreAccepted ([linesTo12] ++ [line12]) := by
      refine areAccepted_concat.2 ⟨haccepted, ⟨rfl, rfl⟩, ?_⟩
      rintro _ ⟨⟩
      exact ⟨_, rfl, _, rfl, by decide⟩
    have hne : sharedBound ≠ [] := by simp [sharedBound]
    have hread := ((parse_specification hne).1 _).2 ⟨hall, rfl⟩
    have htext : String.ofList (specification sharedBound) =
        "[ 8.0.0 , 12.0.0) ,\t[12.0.0]" := by decide +kernel
    rw [htext] at hread
    exact hread
  · have hlast : linesAfter10.IsValid := by
      refine ⟨by decide +kernel, ?_⟩
      rintro _ _ _ ⟨⟩
    have hfollows : ¬ linesTo12.Follows linesAfter10 := by
      rintro ⟨_, ⟨⟩, _, ⟨⟩, h⟩
      exact h (by decide)
    have htrim : String.ofList (trim (specification overlapping)) =
        "[ 8.0.0 , 12.0.0) ,\t(10.0.0,]" := by decide +kernel
    have hfault : FirstFault "[ 8.0.0 , 12.0.0) ,\t(10.0.0,]" ([] ++ [linesTo12, linesAfter10])
        (.overlap "[ 8.0.0 , 12.0.0) ,\t(10.0.0,]") := .overlap haccepted hlast hfollows
    have hne : overlapping ≠ [] := by simp [overlapping]
    have hread := ((parse_specification hne).2 _).2 (by rw [htrim]; exact hfault)
    have htext : String.ofList (specification overlapping) =
        "[ 8.0.0 , 12.0.0) ,\t(10.0.0,]" := by decide +kernel
    rw [htext] at hread
    exact hread

end VersionRange

end ReleaseCatalog
