import ReleaseCatalog.Proofs.Json.RoundTrip

namespace ReleaseCatalog.Json

open Text (isAsciiDigit)

/-- Blanks such as may stand between the parts of a document. -/
def Gap : Type := { w : List Char // ∀ c ∈ w, isGap c = true }

def Gap.empty : Gap := ⟨[], fun _ h => nomatch h⟩

theorem Gap.skipGap_append (w : Gap) (s : List Char) : skipGap (w.val ++ s) = skipGap s :=
  List.dropWhile_append_of_pos w.property

theorem Gap.skipGap_val (w : Gap) : skipGap w.val = [] := by
  have h := w.skipGap_append []
  rw [List.append_nil] at h
  exact h

theorem EndsNumber.of_isGap {c : Char} (h : isGap c = true) (s : List Char) :
    EndsNumber (c :: s) := by
  have hdigit : isAsciiDigit c = false := by
    cases hd : isAsciiDigit c with
    | false => rfl
    | true =>
      rw [isGap_of_isAsciiDigit hd] at h
      cases h
  have hother {d : Char} (hd : isGap d = false) : c ≠ d := by
    intro hcd
    rw [hcd, hd] at h
    cases h
  exact .cons hdigit (hother (by decide)) (hother (by decide)) (hother (by decide))

theorem Gap.endsNumber_append (w : Gap) {s : List Char} (hs : EndsNumber s) :
    EndsNumber (w.val ++ s) := by
  obtain ⟨w, hw⟩ := w
  cases w with
  | nil => exact hs
  | cons c w => exact .of_isGap (hw c (List.mem_cons_self ..)) (w ++ s)

/-- Something with a gap before it and a gap after it. -/
structure Spaced (α : Type) where
  before : Gap
  value : α
  after : Gap

def Spaced.map {α β : Type} (f : α → β) (x : Spaced α) : Spaced β :=
  { x with value := f x.value }

@[simp] theorem Spaced.value_map {α β : Type} (f : α → β) (x : Spaced α) :
    (x.map f).value = f x.value := rfl

def Spaced.toChars (x : Spaced String) : List Char :=
  x.before.val ++ x.value.toList ++ x.after.val

/-- The text between the brackets of an array. -/
def spacedElements (xs : List (Spaced String)) : List Char :=
  [','].intercalate (xs.map Spaced.toChars)

/-- An array as a text, with gaps wherever they may stand. -/
def spacedArray (lead inner : Gap) (xs : List (Spaced String)) (trail : Gap) : String :=
  String.ofList (lead.val ++ '[' :: (inner.val ++ spacedElements xs ++ ']' :: trail.val))

theorem Spaced.toChars_print (x : Spaced Json) (s : List Char) :
    (x.map print).toChars ++ s = x.before.val ++ (x.value.render ++ (x.after.val ++ s)) := by
  rw [toChars, value_map, print, String.toList_ofList]
  simp [map]

theorem spacedElements_singleton (x : Spaced String) : spacedElements [x] = x.toChars := by
  simp [spacedElements, List.intercalate]

theorem spacedElements_cons_cons (x y : Spaced String) (xs : List (Spaced String)) :
    spacedElements (x :: y :: xs) = x.toChars ++ ',' :: spacedElements (y :: xs) := by
  simp [spacedElements, List.intercalate]

theorem readValue_spaced {x : Spaced Json} {fuel : Nat} {s : List Char} (h : x.value.IsPlain)
    (hs : EndsNumber s) (hf : (x.map print).toChars.length < fuel) :
    readValue fuel (skipGap ((x.map print).toChars ++ s)) = some (x.value, x.after.val ++ s) := by
  have hlength := congrArg List.length (x.toChars_print [])
  simp only [List.length_append, List.length_nil] at hlength
  rw [x.toChars_print, Gap.skipGap_append, skipGap_render h]
  apply readValue_render x.value fuel _ h (Gap.endsNumber_append _ hs)
  omega

theorem readElements_spaced (xs : List (Spaced Json)) {x : Spaced Json} {fuel : Nat}
    {s : List Char} (h : ∀ y ∈ x :: xs, y.value.IsPlain)
    (hf : (spacedElements ((x :: xs).map (·.map print))).length + 2 ≤ fuel) :
    readElements fuel (skipGap (spacedElements ((x :: xs).map (·.map print)) ++ ']' :: s)) =
      some ((x :: xs).map (·.value), s) := by
  induction xs generalizing x fuel with
  | nil =>
    cases fuel with
    | zero => omega
    | succ fuel =>
      rw [List.map_singleton, spacedElements_singleton] at hf ⊢
      have hx : x.value.IsPlain := h x (List.mem_cons_self ..)
      have hends : EndsNumber (']' :: s) :=
        .cons (by decide) (by decide) (by decide) (by decide)
      apply readElements_last (readValue_spaced hx hends (by omega))
      rw [Gap.skipGap_append, skipGap_cons (by decide)]
  | cons y ys ih =>
    cases fuel with
    | zero => omega
    | succ fuel =>
      rw [List.map_cons, List.map_cons, spacedElements_cons_cons] at hf ⊢
      rw [List.length_append, List.length_cons] at hf
      have hx : x.value.IsPlain := h x (List.mem_cons_self ..)
      have hys : readElements fuel _ = some ((y :: ys).map (·.value), s) :=
        ih (fun z hz => h z (List.mem_cons_of_mem x hz)) (by rw [List.map_cons]; omega)
      rw [List.append_assoc, List.cons_append]
      have hends (t : List Char) : EndsNumber (',' :: t) :=
        .cons (by decide) (by decide) (by decide) (by decide)
      apply readElements_more (readValue_spaced hx (hends _) (by omega))
      · rw [Gap.skipGap_append, skipGap_cons (by decide)]
      · exact hys

theorem skipGap_spacedElements_ne {x : Spaced Json} (xs : List (Spaced Json)) (s t : List Char)
    (h : x.value.IsPlain) :
    skipGap (spacedElements ((x :: xs).map (·.map print)) ++ s) ≠ ']' :: t := by
  have hfront : ∃ u, spacedElements ((x :: xs).map (·.map print)) ++ s =
      (x.map print).toChars ++ u := by
    cases xs with
    | nil =>
      rw [List.map_singleton, spacedElements_singleton]
      exact ⟨s, rfl⟩
    | cons y ys =>
      rw [List.map_cons, List.map_cons, spacedElements_cons_cons, List.append_assoc]
      exact ⟨_, rfl⟩
  obtain ⟨u, hu⟩ := hfront
  obtain ⟨c, w, hc, hgap, hne⟩ := render_cons h
  rw [hu, x.toChars_print, Gap.skipGap_append, skipGap_render h, hc, List.cons_append]
  intro heq
  exact hne (List.cons.inj heq).1

theorem readValue_spacedArray (inner : Gap) {xs : List (Spaced Json)} {fuel : Nat}
    (s : List Char) (h : ∀ x ∈ xs, x.value.IsPlain)
    (hf : (spacedElements (xs.map (·.map print))).length + 2 ≤ fuel) :
    readValue (fuel + 1)
      ('[' :: (inner.val ++ spacedElements (xs.map (·.map print)) ++ ']' :: s)) =
        some (.array (xs.map (·.value)), s) := by
  rw [List.append_assoc]
  cases xs with
  | nil =>
    have hend : skipGap (inner.val ++ ([] ++ ']' :: s)) = ']' :: s := by
      rw [Gap.skipGap_append, List.nil_append, skipGap_cons (by decide)]
    simp only [List.map_nil, spacedElements, List.intercalate_nil, readValue, hend]
  | cons x xs =>
    apply readValue_elements
    · intro t
      rw [Gap.skipGap_append]
      exact skipGap_spacedElements_ne xs _ t (h x (List.mem_cons_self ..))
    · rw [Gap.skipGap_append]
      exact readElements_spaced xs h hf

/-- An array of values with gaps around them is read as the array of the values. -/
theorem parse?_spacedArray (lead inner : Gap) {xs : List (Spaced Json)} (trail : Gap)
    (h : ∀ x ∈ xs, x.value.IsPlain) :
    parse? (spacedArray lead inner (xs.map (·.map print)) trail) =
      some (.array (xs.map (·.value))) := by
  let cs : List Char := lead.val ++
    '[' :: (inner.val ++ spacedElements (xs.map (·.map print)) ++ ']' :: trail.val)
  have hlist : (spacedArray lead inner (xs.map (·.map print)) trail).toList = cs :=
    String.toList_ofList
  have hskip : skipGap cs =
      '[' :: (inner.val ++ spacedElements (xs.map (·.map print)) ++ ']' :: trail.val) := by
    rw [Gap.skipGap_append, skipGap_cons (by decide)]
  have hfuel : (spacedElements (xs.map (·.map print))).length + 2 ≤ cs.length := by
    simp only [cs, List.length_append, List.length_cons]
    omega
  simp only [parse?, hlist, hskip, readValue_spacedArray inner trail.val h hfuel,
    Option.bind_eq_bind, Option.bind_some, Gap.skipGap_val]
  rfl

end ReleaseCatalog.Json
