import ReleaseCatalog.Json.Reader
import ReleaseCatalog.Json.Writer

namespace ReleaseCatalog.Json

open Text (isAsciiDigit isAsciiDigit_of_mem_toDigits head_toDigits)

/-- A text that a number in front of it does not go on with. -/
def EndsNumber (s : List Char) : Prop :=
  ∀ c t, s = c :: t → isAsciiDigit c = false ∧ c ≠ '.' ∧ c ≠ 'e' ∧ c ≠ 'E'

theorem EndsNumber.nil : EndsNumber [] := by
  intro c t h
  cases h

theorem EndsNumber.cons {c : Char} {s : List Char} (hd : isAsciiDigit c = false) (hp : c ≠ '.')
    (he : c ≠ 'e') (hE : c ≠ 'E') : EndsNumber (c :: s) := by
  intro d t h
  cases h
  exact ⟨hd, hp, he, hE⟩

theorem EndsNumber.takeWhile {s : List Char} (h : EndsNumber s) :
    s.takeWhile isAsciiDigit = [] := by
  cases s with
  | nil => rfl
  | cons c t => simp [(h c t rfl).1]

theorem EndsNumber.dropWhile {s : List Char} (h : EndsNumber s) :
    s.dropWhile isAsciiDigit = s := by
  cases s with
  | nil => rfl
  | cons c t => simp [(h c t rfl).1]

theorem readDigits_append {w s : List Char} (hw : ∀ c ∈ w, isAsciiDigit c = true) (hne : w ≠ [])
    (hs : EndsNumber s) : readDigits (w ++ s) = some (w, s) := by
  rw [readDigits, List.takeWhile_append_of_pos hw, List.dropWhile_append_of_pos hw, hs.takeWhile,
    hs.dropWhile, List.append_nil]
  cases w with
  | nil => exact absurd rfl hne
  | cons c w => rfl

theorem readWhole_toDigits (n : Nat) {s : List Char} (hs : EndsNumber s) :
    readWhole (Nat.toDigits 10 n ++ s) = some (Nat.toDigits 10 n, s) := by
  by_cases h : n = 0
  · subst h
    rfl
  · have hread := readDigits_append (fun c hc => isAsciiDigit_of_mem_toDigits hc)
      (Nat.toDigits_ne_nil (n := n) (b := 10)) hs
    cases hd : Nat.toDigits 10 n with
    | nil => exact absurd hd Nat.toDigits_ne_nil
    | cons c w =>
      have hc := head_toDigits (Nat.pos_of_ne_zero h) hd
      rw [hd] at hread
      rw [List.cons_append, readWhole, ← List.cons_append, hread]
      exact fun t he => hc (List.cons.inj he).1

theorem readFraction_of_ends {s : List Char} (hs : EndsNumber s) : readFraction s = some ([], s) := by
  rw [readFraction]
  rintro t rfl
  exact (hs '.' t rfl).2.1 rfl

theorem readExponent_of_ends {s : List Char} (hs : EndsNumber s) :
    readExponent s = some (none, s) := by
  cases s with
  | nil => rfl
  | cons c t =>
    obtain ⟨-, -, he, hE⟩ := hs c t rfl
    simp [readExponent, he, hE]

theorem readNumber_ofNat (n : Nat) {s : List Char} (hs : EndsNumber s) :
    readNumber (renderNumeral (.ofNat n) ++ s) = some (.ofNat n, s) := by
  have hrender : renderNumeral (.ofNat n) = Nat.toDigits 10 n := by
    simp [renderNumeral, Numeral.ofNat]
  have hunsigned : readUnsigned false (Nat.toDigits 10 n ++ s) = some (.ofNat n, s) := by
    simp [readUnsigned, readWhole_toDigits n hs, readFraction_of_ends hs, readExponent_of_ends hs,
      Numeral.ofNat]
  rw [hrender]
  cases hd : Nat.toDigits 10 n with
  | nil => exact absurd hd Nat.toDigits_ne_nil
  | cons c w =>
    have hc : isAsciiDigit c = true :=
      isAsciiDigit_of_mem_toDigits (hd ▸ List.mem_cons_self ..)
    rw [← hunsigned, hd, List.cons_append, readNumber]
    intro t he
    rw [(List.cons.inj he).1] at hc
    exact absurd hc (by decide)

theorem hex4?_digitChar :
    ∀ n < 0x20, hex4? '0' '0' (Nat.digitChar (n / 16)) (Nat.digitChar (n % 16)) = some n := by
  decide

/-- What reading yields when a character is put in front of it. -/
def withChar (c : Char) : Option (Option (List Char) × List Char) →
    Option (Option (List Char) × List Char) :=
  Option.map fun (w, rest) => (w.map (c :: ·), rest)

theorem readChars_pair {c d : Char} (h : escaped? d = some c) (s : List Char) :
    readChars ('\\' :: d :: s) = withChar c (readChars s) := by
  rw [readChars]
  · rw [h]
    cases readChars s <;> rfl
  · rintro a b c d s' rfl rfl
    cases h

theorem readChars_control {c : Char} (h : c.toNat < 0x20) (s : List Char) :
    readChars ('\\' :: 'u' :: '0' :: '0' :: Nat.digitChar (c.toNat / 16) ::
      Nat.digitChar (c.toNat % 16) :: s) = withChar c (readChars s) := by
  have hhigh : isHighSurrogate c.toNat = false := by
    simp only [isHighSurrogate, Bool.and_eq_false_imp, decide_eq_true_eq, decide_eq_false_iff_not]
    omega
  have hlow : isLowSurrogate c.toNat = false := by
    simp only [isLowSurrogate, Bool.and_eq_false_imp, decide_eq_true_eq, decide_eq_false_iff_not]
    omega
  rw [readChars, hex4?_digitChar c.toNat h]
  simp only [bind, Option.bind, hhigh, hlow, Char.ofNat_toNat]
  cases readChars s <;> rfl

theorem readChars_plain {c : Char} (hq : c ≠ '"') (hb : c ≠ '\\') (h : ¬c.toNat < 0x20)
    (s : List Char) : readChars (c :: s) = withChar c (readChars s) := by
  rw [readChars]
  · simp only [h, hb, decide_false, beq_iff_eq, Bool.false_or, if_false]
    cases readChars s <;> rfl
  · exact hq
  · intro a b c d s' hc
    exact absurd hc hb
  · intro c s' hc
    exact absurd hc hb

theorem readChars_escape (c : Char) (s : List Char) :
    readChars (escape c ++ s) = withChar c (readChars s) := by
  unfold escape
  split
  · exact readChars_pair rfl s
  · exact readChars_pair rfl s
  · exact readChars_pair rfl s
  · exact readChars_pair rfl s
  · exact readChars_pair rfl s
  · exact readChars_pair rfl s
  · exact readChars_pair rfl s
  · next hq hb _ _ _ _ _ =>
    split
    · next h => exact readChars_control h s
    · next h => exact readChars_plain hq hb h s

theorem readChars_flatMap_escape (w s : List Char) :
    readChars (w.flatMap escape ++ '"' :: s) = some (some w, s) := by
  induction w with
  | nil => rfl
  | cons c w ih =>
    rw [List.flatMap_cons, List.append_assoc, readChars_escape, ih]
    rfl

theorem readChars_half (s : List Char) :
    readChars ('\\' :: 'u' :: 'd' :: '8' :: '0' :: '0' :: '"' :: s) = some (none, s) := by
  have hhex : hex4? 'd' '8' '0' '0' = some 0xd800 := by decide
  have hhigh : isHighSurrogate 0xd800 = true := by decide
  rw [readChars, hhex]
  simp only [bind, Option.bind, hhigh]
  rfl

theorem readString_render (w : Option String) (s : List Char) :
    ∃ t, renderString w ++ s = '"' :: t ∧ readString t = some (w, s) := by
  cases w with
  | none =>
    refine ⟨_, rfl, ?_⟩
    rw [readString]
    simp only [List.nil_append, List.append_eq, List.cons_append, readChars_half]
    rfl
  | some w =>
    refine ⟨w.toList.flatMap escape ++ '"' :: s, by simp [renderString], ?_⟩
    rw [readString, readChars_flatMap_escape, Option.map_some]
    simp only [Option.map_some, String.ofList_toList]

mutual

/-- Whether every number is a natural number in its digits. -/
def IsPlain : Json → Prop
  | number n => ∃ k, n = .ofNat k
  | array xs => AllPlain xs
  | object ms => AllMembersPlain ms
  | null | bool _ | string _ => True

def AllPlain : List Json → Prop
  | [] => True
  | x :: xs => x.IsPlain ∧ AllPlain xs

def AllMembersPlain : List (Option String × Json) → Prop
  | [] => True
  | (_, x) :: ms => x.IsPlain ∧ AllMembersPlain ms

end

theorem isGap_of_isAsciiDigit {c : Char} (h : isAsciiDigit c = true) : isGap c = false := by
  cases hg : isGap c with
  | false => rfl
  | true =>
    simp only [isGap, Bool.or_eq_true, beq_iff_eq] at hg
    rcases hg with ((rfl | rfl) | rfl) | rfl <;> exact absurd h (by decide)

theorem render_cons {x : Json} (h : x.IsPlain) :
    ∃ c t, x.render = c :: t ∧ isGap c = false ∧ c ≠ ']' := by
  cases x with
  | null => exact ⟨'n', ['u', 'l', 'l'], by rw [render]; decide, by decide, by decide⟩
  | bool b =>
    cases b with
    | false => exact ⟨'f', ['a', 'l', 's', 'e'], by rw [render]; decide, by decide, by decide⟩
    | true => exact ⟨'t', ['r', 'u', 'e'], by rw [render]; decide, by decide, by decide⟩
  | number n =>
    obtain ⟨k, rfl⟩ := h
    cases hd : Nat.toDigits 10 k with
    | nil => exact absurd hd Nat.toDigits_ne_nil
    | cons c w =>
      have hc : isAsciiDigit c = true :=
        isAsciiDigit_of_mem_toDigits (hd ▸ List.mem_cons_self ..)
      refine ⟨c, w, ?_, isGap_of_isAsciiDigit hc, ?_⟩
      · simp [render, renderNumeral, Numeral.ofNat, hd]
      · rintro rfl
        exact absurd hc (by decide)
  | string w =>
    obtain ⟨t, ht, -⟩ := readString_render w []
    rw [List.append_nil] at ht
    exact ⟨'"', t, by rw [render, ht], by decide, by decide⟩
  | array xs =>
    cases xs with
    | nil => exact ⟨'[', [']'], by rw [render], by decide, by decide⟩
    | cons x xs =>
      exact ⟨'[', x.render ++ renderElements xs, by rw [render]; rfl, by decide, by decide⟩
  | object ms =>
    rcases ms with _ | ⟨⟨name, x⟩, ms⟩
    · exact ⟨'\x7b', ['\x7d'], by rw [render], by decide, by decide⟩
    · exact ⟨'\x7b', renderString name ++ ':' :: x.render ++ renderMembers ms,
        by rw [render]; rfl, by decide, by decide⟩

theorem skipGap_cons {c : Char} (h : isGap c = false) (s : List Char) :
    skipGap (c :: s) = c :: s := by
  simp [skipGap, h]

theorem readValue_number {c : Char} (hc : isAsciiDigit c = true) (fuel : Nat) (s : List Char) :
    readValue (fuel + 1) (c :: s) =
      (readNumber (c :: s)).map fun (n, rest) => (.number n, rest) := by
  have hne {d : Char} (hd : isAsciiDigit d = false) (t : List Char) : c :: s ≠ d :: t := by
    rintro ⟨⟩
    rw [hc] at hd
    cases hd
  rw [readValue]
  · exact List.cons_ne_nil c s
  · exact hne (by decide)
  · exact hne (by decide)
  · exact hne (by decide)
  · exact hne (by decide)
  · exact hne (by decide)
  · exact hne (by decide)

theorem endsNumber_renderElements (xs : List Json) (s : List Char) :
    EndsNumber (renderElements xs ++ s) := by
  cases xs with
  | nil => exact .cons (by decide) (by decide) (by decide) (by decide)
  | cons x xs =>
    rw [renderElements]
    exact .cons (by decide) (by decide) (by decide) (by decide)

theorem endsNumber_renderMembers (ms : List (Option String × Json)) (s : List Char) :
    EndsNumber (renderMembers ms ++ s) := by
  rcases ms with _ | ⟨⟨name, x⟩, ms⟩
  · exact .cons (by decide) (by decide) (by decide) (by decide)
  · rw [renderMembers]
    exact .cons (by decide) (by decide) (by decide) (by decide)

theorem length_renderElements_pos (xs : List Json) : 0 < (renderElements xs).length := by
  cases xs <;> simp [renderElements]

theorem length_renderMembers_pos (ms : List (Option String × Json)) :
    0 < (renderMembers ms).length := by
  rcases ms with _ | ⟨⟨name, x⟩, ms⟩ <;> simp [renderMembers]

section Steps

variable {fuel : Nat} {s t u : List Char} {x : Json} {name : Option String}

theorem readElements_last (hx : readValue fuel s = some (x, t)) (ht : skipGap t = ']' :: u) :
    readElements (fuel + 1) s = some ([x], u) := by
  rw [readElements, hx]
  simp [ht]

theorem readElements_more {v : List Char} {xs : List Json}
    (hx : readValue fuel s = some (x, t)) (ht : skipGap t = ',' :: u)
    (hxs : readElements fuel (skipGap u) = some (xs, v)) :
    readElements (fuel + 1) s = some (x :: xs, v) := by
  rw [readElements, hx]
  simp [ht, hxs]

theorem readMembers_last (hname : readString s = some (name, ':' :: t))
    (hx : readValue fuel (skipGap t) = some (x, '\x7d' :: u)) :
    readMembers (fuel + 1) ('"' :: s) = some ([(name, x)], u) := by
  rw [readMembers, hname]
  simp [skipGap_cons (c := ':') (by decide), hx, skipGap_cons (c := '\x7d') (by decide)]

theorem readMembers_more {ms : List (Option String × Json)} {v : List Char}
    (hname : readString s = some (name, ':' :: t))
    (hx : readValue fuel (skipGap t) = some (x, ',' :: u))
    (hms : readMembers fuel (skipGap u) = some (ms, v)) :
    readMembers (fuel + 1) ('"' :: s) = some ((name, x) :: ms, v) := by
  rw [readMembers, hname]
  simp [skipGap_cons (c := ':') (by decide), hx, skipGap_cons (c := ',') (by decide), hms]

theorem readValue_elements {xs : List Json} (hs : ∀ t, skipGap s ≠ ']' :: t)
    (hxs : readElements fuel (skipGap s) = some (xs, u)) :
    readValue (fuel + 1) ('[' :: s) = some (.array xs, u) := by
  rw [readValue]
  split
  · next h => exact absurd h (hs _)
  · rw [hxs]
    rfl

theorem readValue_members {ms : List (Option String × Json)} (hs : ∀ t, skipGap s ≠ '\x7d' :: t)
    (hms : readMembers fuel (skipGap s) = some (ms, u)) :
    readValue (fuel + 1) ('\x7b' :: s) = some (.object ms, u) := by
  rw [readValue]
  split
  · next h => exact absurd h (hs _)
  · rw [hms]
    rfl

end Steps

theorem skipGap_render {x : Json} (h : x.IsPlain) (s : List Char) :
    skipGap (x.render ++ s) = x.render ++ s := by
  obtain ⟨c, t, hc, hgap, -⟩ := render_cons h
  rw [hc, List.cons_append, skipGap_cons hgap]

mutual

/-- A written value is read back with the text after it, given a step for each of its characters. -/
theorem readValue_render : ∀ (x : Json) (fuel : Nat) (s : List Char), x.IsPlain → EndsNumber s →
    x.render.length < fuel → readValue fuel (x.render ++ s) = some (x, s)
  | _, 0, _, _, _, hf => absurd hf (Nat.not_lt_zero _)
  | .null, fuel + 1, s, _, _, _ => by
    simp [render, readValue, afterWord?]
  | .bool b, fuel + 1, s, _, _, _ => by
    cases b <;> simp [render, readValue, afterWord?]
  | .number n, fuel + 1, s, h, hs, _ => by
    obtain ⟨k, rfl⟩ := h
    have hread := readNumber_ofNat k hs
    rw [render]
    cases hd : renderNumeral (.ofNat k) with
    | nil => simp [renderNumeral, Numeral.ofNat] at hd
    | cons c w =>
      have hc : isAsciiDigit c = true := by
        apply isAsciiDigit_of_mem_toDigits (n := k)
        simp only [renderNumeral, Numeral.ofNat] at hd
        simp at hd
        rw [hd]
        exact List.mem_cons_self ..
      rw [hd] at hread
      rw [List.cons_append, readValue_number hc, ← List.cons_append, hread]
      rfl
  | .string w, fuel + 1, s, _, _, _ => by
    obtain ⟨t, ht, hread⟩ := readString_render w s
    rw [render, ht, readValue, hread]
    rfl
  | .array [], fuel + 1, s, _, _, _ => by
    simp [render, readValue, skipGap, isGap]
  | .array (x :: xs), fuel + 1, s, h, _, hf => by
    rw [render, List.length_append, List.length_cons] at hf
    have hpos := length_renderElements_pos xs
    rw [render, List.append_assoc, List.cons_append]
    cases fuel with
    | zero => omega
    | succ fuel =>
      have hx (t : List Char) (ht : EndsNumber t) : readValue fuel (x.render ++ t) = some (x, t) :=
        readValue_render x fuel t h.1 ht (by omega)
      have hxs := readElements_render xs x fuel s h.2 hx (by omega)
      apply readValue_elements
      · intro t ht
        obtain ⟨c, w, hc, hgap, hne⟩ := render_cons h.1
        rw [skipGap_render h.1, hc, List.cons_append] at ht
        exact hne (List.cons.inj ht).1
      · rw [skipGap_render h.1, hxs]
  | .object [], fuel + 1, s, _, _, _ => by
    simp [render, readValue, skipGap, isGap]
  | .object ((name, x) :: ms), fuel + 1, s, h, _, hf => by
    simp only [render, List.cons_append, List.length_cons, List.length_append] at hf
    have hpos := length_renderMembers_pos ms
    have hmembers : render (.object ((name, x) :: ms)) ++ s =
        '\x7b' :: (renderString name ++ ':' :: (x.render ++ (renderMembers ms ++ s))) := by
      simp [render]
    rw [hmembers]
    cases fuel with
    | zero => omega
    | succ fuel =>
      have hx (t : List Char) (ht : EndsNumber t) : readValue fuel (x.render ++ t) = some (x, t) :=
        readValue_render x fuel t h.1 ht (by omega)
      obtain ⟨w, hw, hread⟩ := readString_render name (':' :: (x.render ++ (renderMembers ms ++ s)))
      have hms := readMembers_render ms name x fuel s w h.2 (skipGap_render h.1) hx hread (by omega)
      rw [hw]
      have hskip : skipGap ('"' :: w) = '"' :: w := skipGap_cons (by decide) w
      apply readValue_members
      · intro t ht
        rw [hskip] at ht
        exact absurd (List.cons.inj ht).1 (by decide)
      · rw [hskip, hms]

theorem readElements_render : ∀ (xs : List Json) (x : Json) (fuel : Nat) (s : List Char),
    AllPlain xs → (∀ t, EndsNumber t → readValue fuel (x.render ++ t) = some (x, t)) →
    (renderElements xs).length ≤ fuel →
    readElements (fuel + 1) (x.render ++ (renderElements xs ++ s)) = some (x :: xs, s)
  | [], x, fuel, s, _, hx, _ => by
    exact readElements_last (hx _ (endsNumber_renderElements [] s)) (skipGap_cons (by decide) s)
  | y :: ys, x, 0, s, _, _, hf => by
    have hpos := length_renderElements_pos (y :: ys)
    omega
  | y :: ys, x, fuel + 1, s, h, hx, hf => by
    rw [renderElements, List.length_append, List.length_cons] at hf
    have hpos := length_renderElements_pos ys
    have hy (t : List Char) (ht : EndsNumber t) : readValue fuel (y.render ++ t) = some (y, t) :=
      readValue_render y fuel t h.1 ht (by omega)
    have hys := readElements_render ys y fuel s h.2 hy (by omega)
    have hx' := hx _ (endsNumber_renderElements (y :: ys) s)
    rw [renderElements, List.append_assoc, List.cons_append] at hx' ⊢
    apply readElements_more hx' (skipGap_cons (by decide) _)
    rw [skipGap_render h.1, hys]

theorem readMembers_render : ∀ (ms : List (Option String × Json)) (name : Option String) (x : Json)
    (fuel : Nat) (s w : List Char), AllMembersPlain ms →
    (∀ t, skipGap (x.render ++ t) = x.render ++ t) →
    (∀ t, EndsNumber t → readValue fuel (x.render ++ t) = some (x, t)) →
    readString w = some (name, ':' :: (x.render ++ (renderMembers ms ++ s))) →
    (renderMembers ms).length ≤ fuel →
    readMembers (fuel + 1) ('"' :: w) = some ((name, x) :: ms, s)
  | [], name, x, fuel, s, w, _, hskip, hx, hname, _ => by
    apply readMembers_last hname
    rw [hskip, hx _ (endsNumber_renderMembers [] s)]
    rfl
  | (other, y) :: ms, name, x, 0, s, w, _, _, _, _, hf => by
    have hpos := length_renderMembers_pos ((other, y) :: ms)
    omega
  | (other, y) :: ms, name, x, fuel + 1, s, w, h, hskip, hx, hname, hf => by
    simp only [renderMembers, List.cons_append, List.length_cons, List.length_append] at hf
    have hpos := length_renderMembers_pos ms
    have hy (t : List Char) (ht : EndsNumber t) : readValue fuel (y.render ++ t) = some (y, t) :=
      readValue_render y fuel t h.1 ht (by omega)
    obtain ⟨v, hv, hread⟩ := readString_render other (':' :: (y.render ++ (renderMembers ms ++ s)))
    have hms := readMembers_render ms other y fuel s v h.2 (skipGap_render h.1) hy hread (by omega)
    have hmembers : renderMembers ((other, y) :: ms) ++ s = ',' :: '"' :: v := by
      rw [← hv]
      simp [renderMembers]
    have hx' := hx _ (endsNumber_renderMembers ((other, y) :: ms) s)
    rw [hmembers] at hx' hname
    apply readMembers_more hname
    · rw [hskip, hx']
    · rw [skipGap_cons (by decide), hms]

end

/-- Documents of plain numbers are read as they were written. -/
theorem parse?_print {x : Json} (h : x.IsPlain) : parse? x.print = some x := by
  have hlist : x.print.toList = x.render := by
    rw [print, String.toList_ofList]
  have hread := readValue_render x (x.render.length + 1) [] h .nil (Nat.lt_succ_self _)
  rw [List.append_nil] at hread
  have hskip := skipGap_render h []
  rw [List.append_nil] at hskip
  simp only [parse?, hlist, hskip, hread, Option.bind_eq_bind, Option.bind_some]
  rfl

end ReleaseCatalog.Json
