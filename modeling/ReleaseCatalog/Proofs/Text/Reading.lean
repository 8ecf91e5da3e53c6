import Mathlib.Data.List.Basic
import ReleaseCatalog.Text.Character
import ReleaseCatalog.Text.Reading

namespace ReleaseCatalog.Text.Reading

variable {α β : Type}

theorem mem_bind {p : Reading α} {f : α → Reading β} {b : β} {s t : List Char} :
    (b, t) ∈ (p >>= f) s ↔ ∃ a u, (a, u) ∈ p s ∧ (b, t) ∈ f a u :=
  mem_andThen

theorem mem_pure {a b : α} {s t : List Char} : (b, t) ∈ (pure a : Reading α) s ↔ b = a ∧ t = s :=
  mem_done

/-- The first way whose rest is admitted. A reader of a whole text admits the empty rest only, a
reader of the front of a text admits every rest. -/
def preferred? (ok : List Char → Bool) (p : Reading α) (s : List Char) :
    Option (α × List Char) :=
  (p s).find? fun way => ok way.2

theorem whole?_eq_preferred? (p : Reading α) (s : List Char) :
    whole? p s = (preferred? List.isEmpty p s).map (·.1) := rfl

theorem first?_eq_preferred? (p : Reading α) (s : List Char) :
    first? p s = preferred? (fun _ => true) p s := by
  rw [first?, preferred?]
  cases p s <;> rfl

theorem first?_eq_none {p : Reading α} {s : List Char} : first? p s = none ↔ p s = [] := by
  rw [first?, List.head?_eq_none_iff]

theorem whole?_of_first? {p : Reading α} {a : α} {s : List Char} (h : first? p s = some (a, [])) :
    whole? p s = some a := by
  rw [first?] at h
  rw [whole?]
  cases hs : p s with
  | nil => rw [hs] at h; cases h
  | cons way ways =>
    rw [hs, List.head?_cons, Option.some.injEq] at h
    subst h
    rfl

theorem mem_of_first? {p : Reading α} {a : α} {s t : List Char} (h : first? p s = some (a, t)) :
    (a, t) ∈ p s :=
  List.mem_of_head? h

theorem mem_of_whole? {p : Reading α} {a : α} {s : List Char} (h : whole? p s = some a) :
    (a, []) ∈ p s := by
  obtain ⟨⟨b, t⟩, hfind, rfl⟩ := Option.map_eq_some_iff.1 h
  have hempty := List.find?_some (p := fun way : α × List Char => way.2.isEmpty) hfind
  have ht : t = [] := List.isEmpty_iff.1 hempty
  rw [← ht]
  exact List.mem_of_find?_eq_some hfind

section Preference

variable {ok : List Char → Bool} {p : Reading α} {f : α → Reading β} {a : α} {s u : List Char}

/-- Where the preferred first step leads on, it is taken. -/
theorem preferred?_bind {way : β × List Char} (hp : first? p s = some (a, u))
    (hf : preferred? ok (f a) u = some way) : preferred? ok (p >>= f) s = some way := by
  rw [first?] at hp
  cases hs : p s with
  | nil => rw [hs] at hp; cases hp
  | cons first ways =>
    rw [hs, List.head?_cons, Option.some.injEq] at hp
    subst hp
    have hways : (p >>= f) s = f a u ++ ways.flatMap fun way => f way.1 way.2 := by
      show (p s).flatMap _ = _
      rw [hs, List.flatMap_cons]
    rw [preferred?, hways, List.find?_append]
    rw [preferred?] at hf
    rw [hf]
    rfl

theorem preferred?_pure (h : ok s = true) : preferred? ok (pure a : Reading α) s = some (a, s) := by
  show List.find? (fun way => ok way.2) [(a, s)] = _
  exact List.find?_cons_of_pos h

/-- Where taking something leads nowhere, the reading goes on without it. -/
theorem preferred?_maybe_bind {f : Option α → Reading β}
    (h : ∀ a u, (a, u) ∈ p s → preferred? ok (f (some a)) u = none) :
    preferred? ok (maybe p >>= f) s = preferred? ok (f none) s := by
  have hways : (maybe p >>= f) s =
      ((some <$> p) s).flatMap (fun way => f way.1 way.2) ++ f none s := by
    show List.flatMap _ ((some <$> p) s ++ [(none, s)]) = _
    rw [List.flatMap_append, List.flatMap_singleton]
  have hnone : List.find? (fun way => ok way.2)
      (((some <$> p) s).flatMap fun way => f way.1 way.2) = none := by
    rw [List.find?_eq_none]
    rintro ⟨b, t⟩ hb
    obtain ⟨⟨x, v⟩, hx, hb⟩ := List.mem_flatMap.1 hb
    obtain ⟨a, w, ha, hx⟩ := mem_bind.1 hx
    obtain ⟨rfl, rfl⟩ := mem_pure.1 hx
    exact List.find?_eq_none.1 (h a v ha) _ hb
  rw [preferred?, hways, List.find?_append, hnone, Option.none_or]
  rfl

end Preference

theorem first?_bind {p : Reading α} {f : α → Reading β} {a : α} {s u : List Char}
    {way : β × List Char} (hp : first? p s = some (a, u)) (hf : first? (f a) u = some way) :
    first? (p >>= f) s = some way := by
  rw [first?_eq_preferred?] at hf ⊢
  exact preferred?_bind hp hf

theorem first?_one {ok : Char → Bool} {c : Char} (h : ok c = true) (s : List Char) :
    first? (one ok) (c :: s) = some (c, s) := by
  rw [first?, one, if_pos h]
  rfl

theorem first?_literal (w s : List Char) : first? (literal w) (w ++ s) = some ((), s) := by
  induction w with
  | nil => rfl
  | cons c w ih =>
    rw [first?] at ih ⊢
    rw [List.cons_append, literal]
    dsimp only
    rw [if_pos rfl]
    exact ih

theorem run_append {ok : Char → Bool} {w t : List Char} (hw : ∀ c ∈ w, ok c = true)
    (ht : ∀ c ∈ t.head?, ok c = false) : run ok (w ++ t) = [(w, t)] := by
  have hmem : (w, t) ∈ run ok (w ++ t) := mem_run.2 ⟨rfl, hw, ht⟩
  rw [run, List.mem_singleton] at hmem
  rw [run, ← hmem]

theorem first?_run {ok : Char → Bool} {w t : List Char} (hw : ∀ c ∈ w, ok c = true)
    (ht : ∀ c ∈ t.head?, ok c = false) : first? (run ok) (w ++ t) = some (w, t) := by
  rw [first?, run_append hw ht]
  rfl

theorem first?_many {ok : Char → Bool} {w t : List Char} (hne : w ≠ [])
    (hw : ∀ c ∈ w, ok c = true) (ht : ∀ c ∈ t.head?, ok c = false) :
    first? (many ok) (w ++ t) = some (w, t) := by
  have hkeep : (!w.isEmpty) = true := by
    rw [Bool.not_eq_true', List.isEmpty_eq_false_iff]
    exact hne
  rw [first?, many, run_append hw ht]
  simp only [List.filter, hkeep, List.head?_cons]

theorem first?_exactly {ok : Char → Bool} {w : List Char} (hw : ∀ c ∈ w, ok c = true)
    (t : List Char) : first? (exactly ok w.length) (w ++ t) = some (w, t) := by
  induction w with
  | nil => rfl
  | cons c w ih =>
    have hc := hw c (List.mem_cons_self ..)
    have hrest := ih fun d hd => hw d (List.mem_cons_of_mem _ hd)
    rw [List.length_cons, exactly]
    exact first?_bind (first?_one hc _) (first?_bind hrest rfl)

theorem first?_maybe_some {p : Reading α} {a : α} {s t : List Char} (h : first? p s = some (a, t)) :
    first? (maybe p) s = some (some a, t) := by
  have hsome : first? (some <$> p) s = some (some a, t) := first?_bind h rfl
  rw [first?] at hsome ⊢
  rw [maybe, orElse, List.head?_append, hsome]
  rfl

theorem first?_maybe_none {p : Reading α} {s : List Char} (h : p s = []) :
    first? (maybe p) s = some (none, s) := by
  have hnone : (some <$> p) s = [] := by
    show (p s).flatMap _ = []
    rw [h, List.flatMap_nil]
  rw [first?, maybe, orElse, hnone]
  rfl

theorem literal_eq_nil {c : Char} {w s : List Char} (h : ∀ d ∈ s.head?, d ≠ c) :
    literal (c :: w) s = [] := by
  cases s with
  | nil => rfl
  | cons d s =>
    rw [literal]
    exact if_neg fun hc => h d rfl hc.symm

theorem bind_eq_nil {p : Reading α} {f : α → Reading β} {s : List Char} (h : p s = []) :
    (p >>= f) s = [] := by
  show (p s).flatMap _ = []
  rw [h, List.flatMap_nil]

theorem bind_ne_nil {p : Reading α} {f : α → Reading β} {a : α} {s u : List Char}
    (ha : (a, u) ∈ p s) (hf : f a u ≠ []) : (p >>= f) s ≠ [] := by
  obtain ⟨⟨b, t⟩, hb⟩ := List.exists_mem_of_ne_nil _ hf
  exact List.ne_nil_of_mem (mem_bind.2 ⟨a, u, ha, hb⟩)

theorem exists_mem_of_first?_bind {p : Reading α} {f : α → Reading β} {s : List Char}
    {way : β × List Char} (h : first? (p >>= f) s = some way) :
    ∃ a u, (a, u) ∈ p s ∧ first? (f a) u = some way := by
  have hfind : (p s).findSome? (fun way => first? (f way.1) way.2) = some way := by
    rw [← h]
    exact List.head?_flatMap.symm
  obtain ⟨⟨a, u⟩, hmem, hway⟩ := List.exists_of_findSome?_eq_some hfind
  exact ⟨a, u, hmem, hway⟩

/-- Takes something off the front of every text. -/
def IsTotal (p : Reading α) : Prop := ∀ s, p s ≠ []

namespace IsTotal

theorem pure (a : α) : IsTotal (pure a : Reading α) := fun _ => List.cons_ne_nil _ _

theorem run (ok : Char → Bool) : IsTotal (run ok) := fun _ => List.cons_ne_nil _ _

theorem bind {p : Reading α} {f : α → Reading β} (hp : IsTotal p) (hf : ∀ a, IsTotal (f a)) :
    IsTotal (p >>= f) := by
  intro s
  obtain ⟨⟨a, u⟩, ha⟩ := List.exists_mem_of_ne_nil _ (hp s)
  exact bind_ne_nil ha (hf a u)

theorem maybe (p : Reading α) : IsTotal (maybe p) :=
  fun _ => List.ne_nil_of_mem (mem_maybe_none.2 rfl)

end IsTotal

/-- Where every first step leads on, the preferred one is taken. -/
theorem exists_first?_of_bind {p : Reading α} {f : α → Reading β} {s : List Char}
    {way : β × List Char} (hf : ∀ a, IsTotal (f a)) (h : first? (p >>= f) s = some way) :
    ∃ a u, first? p s = some (a, u) ∧ first? (f a) u = some way := by
  cases hp : first? p s with
  | none =>
    obtain ⟨a, u, hmem, -⟩ := exists_mem_of_first?_bind h
    rw [first?_eq_none.1 hp] at hmem
    cases hmem
  | some first =>
    obtain ⟨a, u⟩ := first
    cases ha : first? (f a) u with
    | none => exact absurd (first?_eq_none.1 ha) (hf a u)
    | some next => exact ⟨a, u, rfl, by rw [ha, ← h, first?_bind hp ha]⟩

theorem of_first?_maybe {p : Reading α} {x : Option α} {s u : List Char}
    (h : first? (maybe p) s = some (x, u)) :
    (∃ a, x = some a ∧ first? p s = some (a, u)) ∨ x = none ∧ u = s ∧ p s = [] := by
  cases hp : first? p s with
  | some way =>
    rw [first?_maybe_some (a := way.1) (t := way.2) hp] at h
    cases h
    exact .inl ⟨way.1, rfl, rfl⟩
  | none =>
    have hnil := first?_eq_none.1 hp
    rw [first?_maybe_none hnil] at h
    cases h
    exact .inr ⟨rfl, rfl, hnil⟩

/-- Reads a text that a blank follows as it reads the text alone. -/
def StopsAtBlank (p : Reading α) : Prop :=
  ∀ s t, (∀ c ∈ t.head?, isBlank c = true) →
    p (s ++ t) = (p s).map fun way => (way.1, way.2 ++ t)

namespace StopsAtBlank

theorem pure (a : α) : StopsAtBlank (pure a : Reading α) := fun _ _ _ => rfl

theorem bind {p : Reading α} {f : α → Reading β} (hp : StopsAtBlank p)
    (hf : ∀ a, StopsAtBlank (f a)) : StopsAtBlank (p >>= f) := by
  intro s t ht
  show (p (s ++ t)).flatMap _ = ((p s).flatMap _).map _
  rw [hp s t ht, List.flatMap_map, List.map_flatMap]
  congr 1
  funext way
  exact hf way.1 way.2 t ht

theorem map {p : Reading α} (hp : StopsAtBlank p) (g : α → β) : StopsAtBlank (g <$> p) :=
  hp.bind fun a => pure (g a)

theorem one {ok : Char → Bool} (hok : ∀ c, isBlank c = true → ok c = false) :
    StopsAtBlank (one ok) := by
  intro s t ht
  cases s with
  | cons c s =>
    simp only [List.cons_append, Reading.one]
    split <;> rfl
  | nil =>
    cases t with
    | nil => rfl
    | cons d t =>
      have hd : ok d = false := hok d (ht d rfl)
      simp [Reading.one, hd]

theorem literal {w : List Char} (hw : w.any isBlank = false) : StopsAtBlank (literal w) := by
  induction w with
  | nil => exact fun _ _ _ => rfl
  | cons c w ih =>
    rw [List.any_cons, Bool.or_eq_false_iff] at hw
    obtain ⟨hc, hw⟩ := hw
    have hrest := ih hw
    intro s t ht
    cases s with
    | cons d s =>
      simp only [List.cons_append, Reading.literal]
      split
      · exact hrest s t ht
      · rfl
    | nil =>
      rw [List.nil_append]
      apply literal_eq_nil
      intro d hd heq
      rw [← heq, ht d hd] at hc
      cases hc

theorem run {ok : Char → Bool} (hok : ∀ c, isBlank c = true → ok c = false) :
    StopsAtBlank (run ok) := by
  intro s t ht
  have hw : ∀ c ∈ s.takeWhile ok, ok c = true := List.all_eq_true.1 List.all_takeWhile
  have hstop : ∀ c ∈ (s.dropWhile ok ++ t).head?, ok c = false := by
    intro c hc
    rw [List.head?_append, Option.mem_def, Option.or_eq_some_iff] at hc
    rcases hc with hc | ⟨-, hc⟩
    · have hneg := List.head?_dropWhile_not ok s
      rw [hc] at hneg
      simpa using hneg
    · exact hok c (ht c hc)
  have hrun := run_append hw hstop
  rw [← List.append_assoc, List.takeWhile_append_dropWhile] at hrun
  exact hrun

theorem many {ok : Char → Bool} (hok : ∀ c, isBlank c = true → ok c = false) :
    StopsAtBlank (many ok) := by
  intro s t ht
  rw [Reading.many, run hok s t ht, List.filter_map]
  rfl

theorem exactly {ok : Char → Bool} (hok : ∀ c, isBlank c = true → ok c = false) (n : Nat) :
    StopsAtBlank (exactly ok n) := by
  induction n with
  | zero => exact fun _ _ _ => rfl
  | succ n ih =>
    rw [Reading.exactly]
    exact (one hok).bind fun c => ih.bind fun w => pure (c :: w)

theorem maybe {p : Reading α} (hp : StopsAtBlank p) : StopsAtBlank (maybe p) := by
  intro s t ht
  show (some <$> p) (s ++ t) ++ [(none, s ++ t)] = ((some <$> p) s ++ [(none, s)]).map _
  rw [hp.map some s t ht, List.map_append]
  rfl

end StopsAtBlank

end ReleaseCatalog.Text.Reading
