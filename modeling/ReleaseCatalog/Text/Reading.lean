namespace ReleaseCatalog.Text

/-- The ways to take an `α` off the front of a text, the preferred one first, each with the text
it leaves. -/
def Reading (α : Type) : Type := List Char → List (α × List Char)

namespace Reading

variable {α β : Type}

def done (a : α) : Reading α := fun s => [(a, s)]

/-- One reading, and then another that may depend on what the first one took. -/
def andThen (p : Reading α) (f : α → Reading β) : Reading β :=
  fun s => (p s).flatMap fun way => f way.1 way.2

instance : Monad Reading where
  pure := done
  bind := andThen

/-- The ways of one reading, and after them those of another. -/
def orElse (p q : Reading α) : Reading α := fun s => p s ++ q s

def one (ok : Char → Bool) : Reading Char
  | [] => []
  | c :: s => if ok c then [(c, s)] else []

def literal : List Char → Reading Unit
  | [] => done ()
  | c :: w => fun
    | [] => []
    | d :: s => if c = d then literal w s else []

/-- The characters of a class up to the first that is of another, or the end. A run is taken whole:
where nothing that may follow it starts with a character of the class, a shorter one leads nowhere. -/
def run (ok : Char → Bool) : Reading (List Char) := fun s => [(s.takeWhile ok, s.dropWhile ok)]

/-- A run of at least one character. -/
def many (ok : Char → Bool) : Reading (List Char) :=
  fun s => (run ok s).filter fun way => !way.1.isEmpty

/-- Exactly `n` characters of a class. -/
def exactly (ok : Char → Bool) : Nat → Reading (List Char)
  | 0 => done []
  | n + 1 => do
    let c ← one ok
    let w ← exactly ok n
    return c :: w

/-- What `p` takes, or nothing at all where that lets the reading go on. -/
def maybe (p : Reading α) : Reading (Option α) := orElse (some <$> p) (done none)

/-- The preferred way that leaves nothing of the text. -/
def whole? (p : Reading α) (s : List Char) : Option α :=
  ((p s).find? fun way => way.2.isEmpty).map (·.1)

def first? (p : Reading α) (s : List Char) : Option (α × List Char) := (p s).head?

@[simp] theorem mem_done {a b : α} {s t : List Char} : (b, t) ∈ done a s ↔ b = a ∧ t = s := by
  simp [done]

@[simp] theorem mem_andThen {p : Reading α} {f : α → Reading β} {b : β} {s t : List Char} :
    (b, t) ∈ andThen p f s ↔ ∃ a u, (a, u) ∈ p s ∧ (b, t) ∈ f a u := by
  simp [andThen]

@[simp] theorem mem_orElse {p q : Reading α} {a : α} {s t : List Char} :
    (a, t) ∈ orElse p q s ↔ (a, t) ∈ p s ∨ (a, t) ∈ q s := by
  simp [orElse]

theorem mem_one {ok : Char → Bool} {c : Char} {s t : List Char} :
    (c, t) ∈ one ok s ↔ s = c :: t ∧ ok c = true := by
  cases s with
  | nil => simp [one]
  | cons d s =>
    by_cases h : ok d = true
    · simp only [one, h, if_true, List.mem_singleton, Prod.mk.injEq, List.cons.injEq]
      constructor
      · rintro ⟨rfl, rfl⟩; exact ⟨⟨rfl, rfl⟩, h⟩
      · rintro ⟨⟨rfl, rfl⟩, -⟩; exact ⟨rfl, rfl⟩
    · simp only [one, h]
      constructor
      · simp
      · rintro ⟨he, hc⟩
        injection he with hd
        exact absurd (hd ▸ hc) h

theorem mem_literal {w s t : List Char} : ((), t) ∈ literal w s ↔ s = w ++ t := by
  induction w generalizing s with
  | nil => simp [literal, eq_comm]
  | cons c w ih =>
    cases s with
    | nil => simp [literal]
    | cons d s =>
      by_cases h : c = d
      · subst h; simp [literal, ih]
      · simp [literal, h, Ne.symm h]

/-- A run is of its class, and what it leaves does not go on with the class. -/
theorem mem_run {ok : Char → Bool} {w s t : List Char} :
    (w, t) ∈ run ok s ↔ s = w ++ t ∧ (∀ c ∈ w, ok c = true) ∧ ∀ c ∈ t.head?, ok c = false := by
  simp only [run, List.mem_singleton, Prod.mk.injEq]
  constructor
  · rintro ⟨rfl, rfl⟩
    refine ⟨List.takeWhile_append_dropWhile.symm, fun c hc => ?_, fun c hc => ?_⟩
    · exact List.all_eq_true.1 List.all_takeWhile c hc
    · have h := List.head?_dropWhile_not ok s
      rw [Option.mem_def.1 hc] at h
      simpa using h
  · rintro ⟨rfl, hw, ht⟩
    rw [List.takeWhile_append_of_pos hw, List.dropWhile_append_of_pos hw]
    cases t with
    | nil => simp
    | cons c t => simp [ht c rfl]

theorem mem_many {ok : Char → Bool} {w s t : List Char} :
    (w, t) ∈ many ok s ↔ w ≠ [] ∧ (w, t) ∈ run ok s := by
  simp [many, and_comm]

@[simp] theorem mem_maybe_some {p : Reading α} {a : α} {s t : List Char} :
    (some a, t) ∈ maybe p s ↔ (a, t) ∈ p s := by
  simp only [maybe, mem_orElse, mem_done, reduceCtorEq, false_and, or_false]
  show (some a, t) ∈ andThen p (fun x => done (some x)) s ↔ _
  simp

@[simp] theorem mem_maybe_none {p : Reading α} {s t : List Char} :
    (none, t) ∈ maybe p s ↔ t = s := by
  simp only [maybe, mem_orElse, mem_done, true_and]
  refine or_iff_right ?_
  show ¬ (none, t) ∈ andThen p (fun x => done (some x)) s
  simp

end Reading

end ReleaseCatalog.Text
