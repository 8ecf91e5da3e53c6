import Mathlib.Data.List.Basic

namespace ReleaseCatalog

variable {α β ε : Type} {f : α → Except ε β}

theorem mapM_eq_ok {g : α → β} {xs : List α} (h : ∀ x ∈ xs, f x = .ok (g x)) :
    xs.mapM f = .ok (xs.map g) := by
  induction xs with
  | nil => rfl
  | cons x xs ih =>
    have hx := h x (List.mem_cons_self ..)
    have hxs := ih fun y hy => h y (List.mem_cons_of_mem _ hy)
    simp [List.mapM_cons, hx, hxs, bind, Except.bind, pure, Except.pure]

/-- A traversal fails with the error of the first element that has one. -/
theorem mapM_eq_error_iff {xs : List α} {e : ε} :
    xs.mapM f = .error e ↔
      ∃ (i : Nat) (x : α), xs[i]? = some x ∧ f x = .error e ∧
        ∀ j < i, ∀ y, xs[j]? = some y → ∃ b, f y = .ok b := by
  induction xs with
  | nil => simp [pure, Except.pure]
  | cons x xs ih =>
    rw [List.mapM_cons]
    cases hx : f x with
    | error d =>
      constructor
      · intro h
        obtain rfl : d = e := by simpa [bind, Except.bind] using h
        exact ⟨0, x, rfl, hx, fun j hj => absurd hj (Nat.not_lt_zero j)⟩
      · rintro ⟨i, y, hy, he, hbefore⟩
        cases i with
        | zero =>
          obtain rfl : x = y := by simpa using hy
          rw [hx] at he
          cases he
          rfl
        | succ i =>
          obtain ⟨b, hb⟩ := hbefore 0 (Nat.succ_pos i) x rfl
          rw [hx] at hb
          cases hb
    | ok b =>
      have hrest : (xs.mapM f).bind (fun bs => .ok (b :: bs)) = .error e ↔
          xs.mapM f = .error e := by
        cases xs.mapM f <;> simp [Except.bind]
      refine hrest.trans (ih.trans ?_)
      constructor
      · rintro ⟨i, y, hy, he, hbefore⟩
        refine ⟨i + 1, y, hy, he, fun j hj z hz => ?_⟩
        cases j with
        | zero =>
          obtain rfl : x = z := by simpa using hz
          exact ⟨b, hx⟩
        | succ j => exact hbefore j (by omega) z hz
      · rintro ⟨i, y, hy, he, hbefore⟩
        cases i with
        | zero =>
          obtain rfl : x = y := by simpa using hy
          rw [hx] at he
          cases he
        | succ i => exact ⟨i, y, hy, he, fun j hj z hz => hbefore (j + 1) (by omega) z hz⟩

section Positions

variable {as : List α}

theorem getElem?_zipIdx_eq_some_iff {i : Nat} {p : α × Nat} :
    as.zipIdx[i]? = some p ↔ as[i]? = some p.1 ∧ p.2 = i := by
  rw [List.getElem?_zipIdx, Option.map_eq_some_iff]
  constructor
  · rintro ⟨a, ha, rfl⟩
    exact ⟨ha, Nat.zero_add i⟩
  · rintro ⟨ha, hi⟩
    refine ⟨p.1, ha, ?_⟩
    rw [Nat.zero_add, ← hi]

theorem map_mapIdx {γ : Type} (f : Nat → α → β) (g : β → γ) :
    (as.mapIdx f).map g = as.mapIdx fun i a => g (f i a) := by
  rw [List.mapIdx_eq_zipIdx_map, List.mapIdx_eq_zipIdx_map, List.map_map]
  rfl

theorem mapM_zipIdx_eq_ok {f : Nat → α → Except ε β} {g : Nat → α → β}
    (h : ∀ i a, as[i]? = some a → f i a = .ok (g i a)) :
    as.zipIdx.mapM (fun a => f a.2 a.1) = .ok (as.zipIdx.map fun a => g a.2 a.1) := by
  apply mapM_eq_ok
  rintro ⟨a, i⟩ ha
  exact h i a (List.mk_mem_zipIdx_iff_getElem?.1 ha)

theorem mapM_zipIdx_eq_error_iff (f : Nat → α → Except ε β) {e : ε} :
    as.zipIdx.mapM (fun a => f a.2 a.1) = .error e ↔
      ∃ i a, as[i]? = some a ∧ f i a = .error e ∧
        ∀ j < i, ∀ b, as[j]? = some b → ∃ y, f j b = .ok y := by
  rw [mapM_eq_error_iff]
  constructor
  · rintro ⟨i, ⟨a, k⟩, ha, he, hbefore⟩
    obtain ⟨ha, rfl⟩ := getElem?_zipIdx_eq_some_iff.1 ha
    refine ⟨k, a, ha, he, fun j hj b hb => ?_⟩
    exact hbefore j hj (b, j) (getElem?_zipIdx_eq_some_iff.2 ⟨hb, rfl⟩)
  · rintro ⟨i, a, ha, he, hbefore⟩
    refine ⟨i, (a, i), getElem?_zipIdx_eq_some_iff.2 ⟨ha, rfl⟩, he, fun j hj p hp => ?_⟩
    obtain ⟨hb, rfl⟩ := getElem?_zipIdx_eq_some_iff.1 hp
    exact hbefore p.2 hj p.1 hb

end Positions

end ReleaseCatalog
