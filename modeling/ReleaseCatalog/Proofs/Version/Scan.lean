import ReleaseCatalog.Proofs.Version.Written

namespace ReleaseCatalog.Family

open Text (Reading isDigit isBlank isWordChar)
open Text.Reading

theorem Writes.exists_isDigit {f : Family} {sp : Spelling} {w : List Char} (h : f.Writes sp w) :
    ∃ c ∈ w, isDigit c = true := by
  have hmajor {major before after : List Char} (hm : IsLeadingWord major) :
      ∃ c ∈ before ++ (major ++ after), isDigit c = true := by
    obtain ⟨c, v, rfl⟩ := List.exists_cons_of_ne_nil hm.1.1
    exact ⟨c, by simp, hm.1.2 c (List.mem_cons_self ..)⟩
  cases h with
  | nightly opening hm marked date => exact hmajor hm
  | legacy hline hsecurity hbuild => exact ⟨'1', by simp, by decide⟩
  | update jdk hm hsecurity hbuild => exact hmajor hm
  | jep223 opening hm => exact hmajor hm

theorem name_eq_nil {f : Family} {s : List Char} (h : ∀ c ∈ s, isDigit c = false) :
    f.name s = [] := by
  apply List.eq_nil_iff_forall_not_mem.2
  rintro ⟨sp, t⟩ hmem
  obtain ⟨w, rfl, hw⟩ := writes_of_mem hmem
  obtain ⟨c, hc, hdigit⟩ := hw.exists_isDigit
  rw [h c (List.mem_append_left _ hc)] at hdigit
  cases hdigit

theorem length_lt_of_mem_name {f : Family} {sp : Spelling} {s t : List Char}
    (h : (sp, t) ∈ f.name s) : t.length < s.length := by
  obtain ⟨w, rfl, hw⟩ := writes_of_mem h
  obtain ⟨c, hc, -⟩ := hw.exists_isDigit
  have hpos := List.length_pos_of_mem hc
  rw [List.length_append]
  omega

/-- What a family reads at the front of a text that follows the character `before`. -/
def nameAfter (f : Family) (before : Option Char) : Reading Spelling :=
  lead before f >>= fun _ => f.name

theorem namesFrom_cons (f : Family) (before : Option Char) (c : Char) (s : List Char) :
    namesFrom f before 0 (c :: s) =
      match first? (nameAfter f before) (c :: s) with
      | some (spelling, rest) => spelling :: namesFrom f (some c) (s.length - rest.length) s
      | none => namesFrom f (some c) 0 s := rfl

theorem namesFrom_of_some {f : Family} {before : Option Char} {c : Char} {s : List Char}
    {sp : Spelling} {t : List Char} (h : first? (nameAfter f before) (c :: s) = some (sp, t)) :
    namesFrom f before 0 (c :: s) = sp :: namesFrom f (some c) (s.length - t.length) s := by
  rw [namesFrom_cons, h]

theorem namesFrom_of_none {f : Family} {before : Option Char} {c : Char} {s : List Char}
    (h : first? (nameAfter f before) (c :: s) = none) :
    namesFrom f before 0 (c :: s) = namesFrom f (some c) 0 s := by
  rw [namesFrom_cons, h]

theorem namesFrom_of_length_le (f : Family) (before : Option Char) {skip : Nat} {s : List Char}
    (h : s.length ≤ skip) : namesFrom f before skip s = [] := by
  induction s generalizing before skip with
  | nil => rfl
  | cons c s ih =>
    obtain ⟨k, rfl⟩ : ∃ k, skip = k + 1 := ⟨skip - 1, by simp at h; omega⟩
    exact ih (some c) (by simpa using h)

/-- A character that a dated name inside a text may follow. -/
def isGapChar (c : Char) : Bool := !(isDigit c || c == '.' || c == '+')

def gap : Reading Unit := do
  let _ ← one isGapChar

theorem gap_cons (c : Char) (s : List Char) :
    gap (c :: s) = if isGapChar c then [((), s)] else [] := by
  show List.flatMap _ (if isGapChar c = true then [(c, s)] else []) = _
  split <;> rfl

theorem lead_legacy {before : Option Char} (h : before.any isWordChar = false) :
    lead before .legacy = done () :=
  if_neg (Bool.not_eq_true _ ▸ h)

theorem lead_legacy_eq_nil {before : Option Char} (h : before.any isWordChar = true)
    (s : List Char) : lead before .legacy s = [] :=
  congrFun (if_pos h) s

theorem mem_gap_iff {x : Unit} {s t : List Char} :
    (x, t) ∈ gap s ↔ ∃ c, isGapChar c = true ∧ s = c :: t := by
  constructor
  · intro h
    obtain ⟨c, u, hone, hpure⟩ := mem_bind.1 h
    obtain ⟨rfl, hc⟩ := mem_one.1 hone
    obtain ⟨-, rfl⟩ := mem_pure.1 hpure
    exact ⟨c, hc, rfl⟩
  · rintro ⟨c, hc, rfl⟩
    exact mem_bind.2 ⟨c, t, mem_one.2 ⟨rfl, hc⟩, mem_pure.2 ⟨rfl, rfl⟩⟩

/-- What may stand between the character `before` and a name: one character that cannot belong to
a number in front of a dated name, unless the text begins there, and otherwise nothing. -/
def IsGap (before : Option Char) (u : List Char) : Family → Prop
  | nightly => (before = none ∧ u = []) ∨ ∃ c, isGapChar c = true ∧ u = [c]
  | legacy => before.any isWordChar = false ∧ u = []
  | update | jep223 => u = []

theorem mem_lead_iff {f : Family} {before : Option Char} {x : Unit} {s t : List Char} :
    (x, t) ∈ lead before f s ↔ ∃ u, f.IsGap before u ∧ s = u ++ t := by
  cases f with
  | nightly =>
    have hgap : (x, t) ∈ gap s ↔ ∃ u, (∃ c, isGapChar c = true ∧ u = [c]) ∧ s = u ++ t := by
      rw [mem_gap_iff]
      constructor
      · rintro ⟨c, hc, rfl⟩
        exact ⟨[c], ⟨c, hc, rfl⟩, rfl⟩
      · rintro ⟨_, ⟨c, hc, rfl⟩, rfl⟩
        exact ⟨c, hc, rfl⟩
    cases before with
    | none =>
      show (x, t) ∈ orElse (done ()) gap s ↔ _
      rw [mem_orElse, mem_done, hgap]
      constructor
      · rintro (⟨-, rfl⟩ | ⟨u, hu, rfl⟩)
        · exact ⟨[], .inl ⟨rfl, rfl⟩, rfl⟩
        · exact ⟨u, .inr hu, rfl⟩
      · rintro ⟨u, ⟨-, rfl⟩ | hu, rfl⟩
        · exact .inl ⟨rfl, rfl⟩
        · exact .inr ⟨u, hu, rfl⟩
    | some b =>
      show (x, t) ∈ gap s ↔ _
      rw [hgap]
      constructor
      · rintro ⟨u, hu, rfl⟩
        exact ⟨u, .inr hu, rfl⟩
      · rintro ⟨u, ⟨hb, -⟩ | hu, rfl⟩
        · cases hb
        · exact ⟨u, hu, rfl⟩
  | legacy =>
    cases hb : before.any isWordChar with
    | true => simp [lead_legacy_eq_nil hb, IsGap, hb]
    | false => simp [lead_legacy hb, IsGap, hb, eq_comm]
  | update => simp [lead, IsGap, eq_comm]
  | jep223 => simp [lead, IsGap, eq_comm]

theorem of_mem_lead {f : Family} {before : Option Char} {u : Unit} {s t : List Char}
    (h : (u, t) ∈ lead before f s) : t = s ∨ ∃ c, s = c :: t := by
  obtain ⟨v, hv, rfl⟩ := mem_lead_iff.1 h
  cases f with
  | nightly =>
    rcases hv with ⟨-, rfl⟩ | ⟨c, -, rfl⟩
    · exact .inl rfl
    · exact .inr ⟨c, rfl⟩
  | legacy =>
    obtain ⟨-, rfl⟩ := hv
    exact .inl rfl
  | update =>
    obtain rfl : v = [] := hv
    exact .inl rfl
  | jep223 =>
    obtain rfl : v = [] := hv
    exact .inl rfl

theorem eq_of_mem_lead {f : Family} (hf : f ≠ .nightly) {before : Option Char} {u : Unit}
    {s t : List Char} (h : (u, t) ∈ lead before f s) : t = s := by
  obtain ⟨v, hv, rfl⟩ := mem_lead_iff.1 h
  obtain rfl : v = [] := by
    cases f with
    | nightly => exact absurd rfl hf
    | legacy => exact hv.2
    | update => exact hv
    | jep223 => exact hv
  rfl

theorem suffix_of_mem_lead {f : Family} {before : Option Char} {u : Unit} {s t : List Char}
    (h : (u, t) ∈ lead before f s) : t <:+ s := by
  rcases of_mem_lead h with rfl | ⟨c, rfl⟩
  · exact List.suffix_refl _
  · exact List.suffix_cons c t

/-- A scan finds only what the family reads somewhere in the text. -/
theorem exists_of_mem_namesFrom {f : Family} {before : Option Char} {skip : Nat}
    {sp : Spelling} {s : List Char} (h : sp ∈ namesFrom f before skip s) :
    ∃ u t, u <:+ s ∧ (sp, t) ∈ f.name u := by
  induction s generalizing before skip with
  | nil => cases h
  | cons c s ih =>
    have hlater {before : Option Char} {skip : Nat} (h : sp ∈ namesFrom f before skip s) :
        ∃ u t, u <:+ c :: s ∧ (sp, t) ∈ f.name u := by
      obtain ⟨u, t, hu, hmem⟩ := ih h
      exact ⟨u, t, hu.trans (List.suffix_cons c s), hmem⟩
    cases skip with
    | succ skip => exact hlater h
    | zero =>
      rw [namesFrom_cons] at h
      split at h
      · next spelling rest hfirst =>
        rcases List.mem_cons.1 h with rfl | h
        · obtain ⟨_, u, hlead, hmem⟩ := mem_bind.1 (mem_of_first? hfirst)
          exact ⟨u, rest, suffix_of_mem_lead hlead, hmem⟩
        · exact hlater h
      · exact hlater h

theorem names_eq_nil {f : Family} {s : List Char} (h : ∀ u, u <:+ s → f.name u = []) :
    f.names s = [] := by
  apply List.eq_nil_iff_forall_not_mem.2
  intro sp hmem
  obtain ⟨u, t, hu, hname⟩ := exists_of_mem_namesFrom hmem
  rw [h u hu] at hname
  cases hname

theorem first?_lead_none (f : Family) (s : List Char) : first? (lead none f) s = some ((), s) := by
  cases f <;> rfl

theorem exists_names_of_first? {f : Family} {sp : Spelling} {s t : List Char}
    (h : first? f.name s = some (sp, t)) : ∃ rest, f.names s = sp :: rest := by
  cases s with
  | nil =>
    have hnil := name_eq_nil (f := f) (s := []) (by simp)
    rw [first?, hnil] at h
    cases h
  | cons c s => exact ⟨_, namesFrom_of_some (first?_bind (first?_lead_none f _) h)⟩

theorem names_of_first? {f : Family} {sp : Spelling} {s : List Char}
    (h : first? f.name s = some (sp, [])) : f.names s = [sp] := by
  cases s with
  | nil =>
    obtain ⟨rest, hrest⟩ := exists_names_of_first? h
    cases hrest
  | cons c s =>
    rw [names, namesFrom_of_some (first?_bind (first?_lead_none f _) h)]
    exact congrArg (sp :: ·) (namesFrom_of_length_le f (some c) (by simp))

theorem stopsAtBlank_numberAfter {mark : List Char} (h : mark.any isBlank = false) :
    StopsAtBlank (numberAfter mark) :=
  (StopsAtBlank.literal h).bind fun _ => .many fun _ => Text.isDigit_of_isBlank

theorem stopsAtBlank_buildAfter {mark : List Char} (h : mark.any isBlank = false) :
    StopsAtBlank (buildAfter mark) :=
  (stopsAtBlank_numberAfter h).bind fun _ =>
    (stopsAtBlank_numberAfter (by decide)).maybe.bind fun _ => .pure _

theorem stopsAtBlank_product : StopsAtBlank product :=
  .bind (.maybe (.bind (.literal (by decide)) fun _ => .maybe (.literal (by decide))))
    fun _ => .pure _

theorem stopsAtBlank_one_leading : StopsAtBlank (one fun c => '1' ≤ c && c ≤ '9') :=
  .one fun _ hc => Text.forall_isBlank (P := fun c => ('1' ≤ c && c ≤ '9') = false) (by decide) hc

theorem stopsAtBlank_leading : StopsAtBlank leading :=
  stopsAtBlank_one_leading.bind fun _ =>
    .bind (.run fun _ => Text.isDigit_of_isBlank) fun _ => .pure _

theorem stopsAtBlank_date : StopsAtBlank date := by
  have hgo (n : Nat) : StopsAtBlank (date.go n) := by
    induction n with
    | zero => exact fun _ _ _ => rfl
    | succ n ih =>
      exact .bind (.literal (by decide)) fun _ =>
        .bind (.exactly (fun _ => Text.isDigit_of_isBlank) 2) fun _ => ih.bind fun _ => .pure _
  exact .bind (.exactly (fun _ => Text.isDigit_of_isBlank) 4) fun _ =>
    (hgo 4).bind fun _ => .pure _

theorem stopsAtBlank_name (f : Family) : StopsAtBlank f.name := by
  have hmany : StopsAtBlank (many isDigit) := .many fun _ => Text.isDigit_of_isBlank
  have hmark : ['.'].any isBlank = false := by decide
  have hdot := (stopsAtBlank_numberAfter hmark).maybe
  cases f with
  | nightly =>
    exact stopsAtBlank_product.bind fun _ => stopsAtBlank_leading.bind fun _ =>
      .bind (.maybe (.literal (by decide))) fun _ => .bind (.literal (by decide)) fun _ =>
        stopsAtBlank_date.bind fun _ => .pure _
  | legacy =>
    exact .bind (.literal (by decide)) fun _ => stopsAtBlank_one_leading.bind fun _ =>
      .bind (.literal (by decide)) fun _ => hmany.bind fun _ =>
        (stopsAtBlank_buildAfter (by decide)).maybe.bind fun _ => .pure _
  | update =>
    exact .bind (.maybe (.literal (by decide))) fun _ => stopsAtBlank_leading.bind fun _ =>
      .bind (.literal (by decide)) fun _ => hmany.bind fun _ =>
        (stopsAtBlank_buildAfter (by decide)).maybe.bind fun _ => .pure _
  | jep223 =>
    have htag : StopsAtBlank tagAfter :=
      .bind (.literal (by decide)) fun _ =>
        .bind (.one fun c hc => (Bool.or_eq_false_iff.1 (Text.isAlphanum_of_isBlank hc)).1)
          fun _ => .bind (.run fun _ => Text.isAlphanum_of_isBlank) fun _ => .pure _
    have hsuffix : StopsAtBlank suffixAfter :=
      .bind (.literal (by decide)) fun _ => .many fun c hc =>
        Text.forall_isBlank (P := fun c => isSuffixChar c = false) (by decide) hc
    exact stopsAtBlank_product.bind fun _ => stopsAtBlank_leading.bind fun _ =>
      hdot.bind fun _ => hdot.bind fun _ => hdot.bind fun _ => htag.maybe.bind fun _ =>
        (stopsAtBlank_buildAfter (by decide)).maybe.bind fun _ => hsuffix.maybe.bind fun _ =>
          .pure _

theorem namesFrom_eq_nil {f : Family} {s : List Char} (h : ∀ c ∈ s, isDigit c = false)
    (before : Option Char) (skip : Nat) : namesFrom f before skip s = [] := by
  apply List.eq_nil_iff_forall_not_mem.2
  intro sp hmem
  obtain ⟨u, t, hu, hname⟩ := exists_of_mem_namesFrom hmem
  rw [name_eq_nil fun c hc => h c (hu.subset hc)] at hname
  cases hname

theorem lead_append (f : Family) (before : Option Char) (c : Char) (s y : List Char) :
    lead before f (c :: (s ++ y)) =
      (lead before f (c :: s)).map fun way => (way.1, way.2 ++ y) := by
  have hgap : gap (c :: (s ++ y)) = (gap (c :: s)).map fun way => (way.1, way.2 ++ y) := by
    rw [gap_cons, gap_cons]
    split <;> rfl
  cases f with
  | nightly =>
    cases before with
    | none => exact congrArg (((), c :: (s ++ y)) :: ·) hgap
    | some b => exact hgap
  | legacy =>
    cases hb : before.any isWordChar with
    | true => rw [lead_legacy_eq_nil hb, lead_legacy_eq_nil hb, List.map_nil]
    | false =>
      rw [lead_legacy hb]
      rfl
  | update => rfl
  | jep223 => rfl

theorem nameAfter_append (f : Family) (before : Option Char) (c : Char) (s : List Char)
    {y : List Char} (hy : ∀ d ∈ y.head?, isBlank d = true) :
    nameAfter f before (c :: (s ++ y)) =
      (nameAfter f before (c :: s)).map fun way => (way.1, way.2 ++ y) := by
  show (lead before f _).flatMap _ = ((lead before f _).flatMap _).map _
  rw [lead_append, List.flatMap_map, List.map_flatMap]
  congr 1
  funext way
  exact stopsAtBlank_name f way.2 y hy

/-- Text without digits behind a blank changes nothing in what a scan finds before it. -/
theorem namesFrom_append {f : Family} {before : Option Char} {skip : Nat} {s y : List Char}
    (hskip : skip ≤ s.length) (hy : ∀ d ∈ y.head?, isBlank d = true)
    (hdigits : ∀ c ∈ y, isDigit c = false) :
    namesFrom f before skip (s ++ y) = namesFrom f before skip s := by
  induction s generalizing before skip with
  | nil => exact namesFrom_eq_nil hdigits before skip
  | cons c s ih =>
    cases skip with
    | succ skip => exact ih (Nat.le_of_succ_le_succ hskip)
    | zero =>
      have hfirst : first? (nameAfter f before) (c :: (s ++ y)) =
          (first? (nameAfter f before) (c :: s)).map fun way => (way.1, way.2 ++ y) := by
        rw [first?, nameAfter_append f before c s hy, List.head?_map]
        rfl
      rw [List.cons_append, namesFrom_cons, namesFrom_cons, hfirst]
      cases first? (nameAfter f before) (c :: s) with
      | none => exact ih (Nat.zero_le _)
      | some way =>
        have hlen : (s ++ y).length - (way.2 ++ y).length = s.length - way.2.length := by
          rw [List.length_append, List.length_append]
          omega
        show way.1 :: namesFrom f (some c) ((s ++ y).length - (way.2 ++ y).length) (s ++ y) = _
        rw [hlen, ih (Nat.sub_le _ _)]

/-- A text without digits that a blank ends keeps a family from reading anything at its front. -/
theorem name_append_eq_nil {f : Family} {x : List Char} (hne : x ≠ [])
    (hlast : ∀ c ∈ x.getLast?, isBlank c = true) (hdigits : ∀ c ∈ x, isDigit c = false)
    (s : List Char) : f.name (x ++ s) = [] := by
  obtain ⟨u, c, rfl⟩ := (List.eq_nil_or_concat' x).resolve_left hne
  have hblank : isBlank c = true := hlast c (by simp)
  have hnil := name_eq_nil (f := f) fun d hd => hdigits d (List.mem_append_left _ hd)
  rw [List.append_assoc, stopsAtBlank_name f u ([c] ++ s) (by simpa using hblank), hnil,
    List.map_nil]

theorem isGapChar_of_isBlank {c : Char} (h : isBlank c = true) : isGapChar c = true :=
  Text.forall_isBlank (P := fun c => isGapChar c = true) (by decide +kernel) h

/-- The blank before a text is the gap before a dated name there, so the scan goes on with the
text as if nothing stood before it. -/
theorem namesFrom_nightly_cons {c : Char} (hc : isBlank c = true) (before : Option Char)
    (s : List Char) : namesFrom .nightly before 0 (c :: s) = names .nightly s := by
  have hnil : nightly.name (c :: s) = [] :=
    name_append_eq_nil (x := [c]) (by simp) (by simpa using hc)
      (by simpa using Text.isDigit_of_isBlank hc) s
  have hgap : (gap >>= fun _ => nightly.name) (c :: s) = nightly.name s := by
    show List.flatMap _ (gap (c :: s)) = _
    rw [gap_cons, if_pos (isGapChar_of_isBlank hc), List.flatMap_singleton]
  have hafter : first? (nameAfter .nightly before) (c :: s) = first? nightly.name s := by
    cases before with
    | none =>
      show (nightly.name (c :: s) ++ (gap >>= fun _ => nightly.name) (c :: s)).head? = _
      rw [hnil, hgap]
      rfl
    | some b => exact congrArg List.head? hgap
  cases hfirst : first? nightly.name s with
  | none =>
    rw [namesFrom_of_none (hafter.trans hfirst)]
    cases s with
    | nil => rfl
    | cons d s =>
      have hstart : first? (nameAfter .nightly none) (d :: s) =
          first? (nameAfter .nightly (some c)) (d :: s) := by
        show (nightly.name (d :: s) ++ nameAfter .nightly (some c) (d :: s)).head? = _
        rw [first?_eq_none.1 hfirst]
        rfl
      rw [names, namesFrom_cons, namesFrom_cons, hstart]
  | some way =>
    rw [namesFrom_of_some (hafter.trans hfirst)]
    have hlen := length_lt_of_mem_name (mem_of_first? hfirst)
    cases s with
    | nil => cases hlen
    | cons d s =>
      have hstart : first? (nameAfter .nightly none) (d :: s) = some way :=
        first?_bind (first?_lead_none .nightly _) hfirst
      have hskip : (d :: s).length - way.2.length = (s.length - way.2.length) + 1 := by
        rw [List.length_cons] at hlen ⊢
        omega
      rw [names, namesFrom_of_some hstart, hskip]
      rfl

theorem lead_of_isBlank {f : Family} (hf : f ≠ .nightly) {c : Char} (hc : isBlank c = true) :
    lead (some c) f = lead none f := by
  cases f with
  | nightly => exact absurd rfl hf
  | legacy => exact lead_legacy (Text.isWordChar_of_isBlank hc)
  | update => rfl
  | jep223 => rfl

theorem namesFrom_append_of_isBlank {f : Family} {x : List Char} (hne : x ≠ [])
    (hlast : ∀ c ∈ x.getLast?, isBlank c = true) (hdigits : ∀ c ∈ x, isDigit c = false)
    (before : Option Char) (s : List Char) : namesFrom f before 0 (x ++ s) = names f s := by
  induction x generalizing before with
  | nil => exact absurd rfl hne
  | cons c x ih =>
    have hnil := name_append_eq_nil (f := f) hne hlast hdigits s
    cases x with
    | nil =>
      have hc : isBlank c = true := hlast c rfl
      by_cases hf : f = .nightly
      · subst hf
        exact namesFrom_nightly_cons hc before s
      · have hnone : first? (nameAfter f before) (c :: s) = none := by
          rw [first?_eq_none, List.eq_nil_iff_forall_not_mem]
          rintro way hmem
          obtain ⟨_, t, hlead, hname⟩ := mem_bind.1 hmem
          obtain rfl := eq_of_mem_lead hf hlead
          rw [show f.name (c :: s) = [] from hnil] at hname
          cases hname
        rw [List.singleton_append, namesFrom_of_none hnone]
        cases s with
        | nil => rfl
        | cons d s =>
          rw [names, namesFrom_cons, namesFrom_cons, nameAfter, lead_of_isBlank hf hc]
          rfl
    | cons d x =>
      have hlast' : ∀ c ∈ (d :: x).getLast?, isBlank c = true := by
        intro e he
        exact hlast e (by rwa [List.getLast?_cons_cons])
      have hdigits' : ∀ c ∈ d :: x, isDigit c = false :=
        fun e he => hdigits e (List.mem_cons_of_mem _ he)
      have hnext := name_append_eq_nil (f := f) (by simp) hlast' hdigits' s
      have hnone : first? (nameAfter f before) (c :: (d :: x ++ s)) = none := by
        rw [first?_eq_none, List.eq_nil_iff_forall_not_mem]
        rintro way hmem
        obtain ⟨_, t, hlead, hname⟩ := mem_bind.1 hmem
        rcases of_mem_lead hlead with rfl | ⟨e, he⟩
        · rw [show f.name (c :: (d :: x ++ s)) = [] from hnil] at hname
          cases hname
        · obtain ⟨-, rfl⟩ := List.cons.inj he
          rw [hnext] at hname
          cases hname
      rw [List.cons_append, namesFrom_of_none hnone]
      exact ih (by simp) hlast' hdigits' (some c)

theorem names_surrounded (f : Family) {x y : List Char} (s : List Char)
    (hxlast : ∀ c ∈ x.getLast?, isBlank c = true) (hx : ∀ c ∈ x, isDigit c = false)
    (hyhead : ∀ c ∈ y.head?, isBlank c = true) (hy : ∀ c ∈ y, isDigit c = false) :
    names f (x ++ (s ++ y)) = names f s := by
  have happend : names f (s ++ y) = names f s := namesFrom_append (Nat.zero_le _) hyhead hy
  by_cases hne : x = []
  · rw [hne, List.nil_append, happend]
  · rw [names, namesFrom_append_of_isBlank hne hxlast hx, happend]

end ReleaseCatalog.Family
