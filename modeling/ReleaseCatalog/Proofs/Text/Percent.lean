import Mathlib.Data.List.Forall2
import ReleaseCatalog.Proofs.Text.Blank

namespace ReleaseCatalog.Text

/-- A hexadecimal digit of the value, in either case. -/
def IsHexDigit (n : Nat) (c : Char) : Prop := c = Nat.digitChar n ∨ c = (Nat.digitChar n).toUpper

/-- The escape of a byte. -/
def IsEscape (b : UInt8) (w : List Char) : Prop :=
  ∃ high low, w = ['%', high, low] ∧ IsHexDigit (b.toNat / 16) high ∧ IsHexDigit (b.toNat % 16) low

/-- `e` is `s` with some of its characters replaced by the escapes of their bytes in UTF-8. -/
inductive IsEscaping : List Char → List Char → Prop where
  | nil : IsEscaping [] []
  | kept (c : Char) {s e : List Char} (h : IsEscaping s e) : IsEscaping (c :: s) (c :: e)
  | escaped {c : Char} {ws : List (List Char)} {s e : List Char}
      (hws : List.Forall₂ IsEscape (String.utf8EncodeChar c) ws) (h : IsEscaping s e) :
      IsEscaping (c :: s) (ws.flatten ++ e)

theorem forall_isHexDigit {P : Nat → Char → Prop}
    (h : ∀ n < 16, P n (Nat.digitChar n) ∧ P n (Nat.digitChar n).toUpper) {n : Nat} (hn : n < 16)
    {c : Char} (hc : IsHexDigit n c) : P n c := by
  rcases hc with rfl | rfl
  · exact (h n hn).1
  · exact (h n hn).2

theorem IsHexDigit.hexValue? {n : Nat} {c : Char} (h : IsHexDigit n c) (hn : n < 16) :
    Text.hexValue? c = some n :=
  forall_isHexDigit (P := fun n c => Text.hexValue? c = some n) (by decide) hn h

theorem IsHexDigit.isBlank {n : Nat} {c : Char} (h : IsHexDigit n c) (hn : n < 16) :
    Text.isBlank c = false :=
  forall_isHexDigit (P := fun _ c => Text.isBlank c = false) (by decide) hn h

section Escape

variable {b : UInt8} {bs : List UInt8} {w : List Char} {ws : List (List Char)}

theorem IsEscape.percentBytes (h : IsEscape b w) (e : List Char) :
    Text.percentBytes (w ++ e) = b :: Text.percentBytes e := by
  obtain ⟨high, low, rfl, hhigh, hlow⟩ := h
  have hb : b.toNat < 256 := b.toNat_lt
  simp only [List.cons_append, List.nil_append, Text.percentBytes,
    hhigh.hexValue? (Nat.div_lt_of_lt_mul hb), hlow.hexValue? (Nat.mod_lt _ (by decide)),
    Nat.div_add_mod, UInt8.ofNat_toNat]

theorem IsEscape.isBlank (h : IsEscape b w) : ∀ c ∈ w, Text.isBlank c = false := by
  obtain ⟨high, low, rfl, hhigh, hlow⟩ := h
  have hb : b.toNat < 256 := b.toNat_lt
  simp only [List.forall_mem_cons]
  exact ⟨rfl, hhigh.isBlank (Nat.div_lt_of_lt_mul hb), hlow.isBlank (Nat.mod_lt _ (by decide)),
    nofun⟩

theorem percentBytes_escapes (h : List.Forall₂ IsEscape bs ws) (e : List Char) :
    percentBytes (ws.flatten ++ e) = bs ++ percentBytes e := by
  induction h with
  | nil => rfl
  | cons hw _ ih => rw [List.flatten_cons, List.append_assoc, hw.percentBytes, ih, List.cons_append]

theorem isBlank_escapes (h : List.Forall₂ IsEscape bs ws) :
    ∀ c ∈ ws.flatten, isBlank c = false := by
  induction h with
  | nil => nofun
  | cons hw _ ih =>
    rw [List.flatten_cons, List.forall_mem_append]
    exact ⟨hw.isBlank, ih⟩

theorem escapes_ne_nil (h : List.Forall₂ IsEscape bs ws) (hbs : bs ≠ []) : ws.flatten ≠ [] := by
  cases h with
  | nil => exact absurd rfl hbs
  | cons hw _ =>
    obtain ⟨high, low, rfl, -, -⟩ := hw
    exact List.cons_ne_nil _ _

end Escape

namespace IsEscaping

variable {s e : List Char}

theorem refl (s : List Char) : IsEscaping s s := by
  induction s with
  | nil => exact .nil
  | cons c s ih => exact ih.kept c

theorem percentBytes_eq (h : IsEscaping s e) (hs : '%' ∉ s) :
    percentBytes e = s.flatMap String.utf8EncodeChar := by
  induction h with
  | nil => rfl
  | kept c _ ih =>
    rw [List.mem_cons, not_or] at hs
    rw [percentBytes_cons (Ne.symm hs.1), ih hs.2, List.flatMap_cons]
  | escaped hws _ ih =>
    rw [List.mem_cons, not_or] at hs
    rw [percentBytes_escapes hws, ih hs.2, List.flatMap_cons]

/-- Resolving the escapes of a text gives the text, if it has no percent sign of its own. -/
theorem percentDecode_eq (h : IsEscaping s e) (hs : '%' ∉ s) : percentDecode e = s :=
  percentDecode_of_percentBytes (h.percentBytes_eq hs)

theorem eq_nil (h : IsEscaping s []) : s = [] := by
  generalize he : ([] : List Char) = e at h
  cases h with
  | nil => rfl
  | kept => cases he
  | escaped hws _ =>
    exact absurd (List.append_eq_nil_iff.1 he.symm).1
      (escapes_ne_nil hws String.utf8EncodeChar_ne_nil)

theorem mem_head? (h : IsEscaping s e) {c : Char} (hc : c ∈ e.head?) (hblank : isBlank c = true) :
    c ∈ s.head? := by
  cases h with
  | nil => cases hc
  | kept d _ => exact hc
  | escaped hws _ =>
    have hne := escapes_ne_nil hws String.utf8EncodeChar_ne_nil
    rw [List.head?_append_of_ne_nil _ hne] at hc
    rw [isBlank_escapes hws c (List.mem_of_head? hc)] at hblank
    cases hblank

theorem mem_getLast? (h : IsEscaping s e) {c : Char} (hc : c ∈ e.getLast?)
    (hblank : isBlank c = true) : c ∈ s.getLast? := by
  induction h with
  | nil => cases hc
  | @kept d s e h ih =>
    rw [List.getLast?_cons] at hc ⊢
    cases he : e.getLast? with
    | none =>
      rw [List.getLast?_eq_none_iff.1 he] at h
      rw [h.eq_nil]
      rw [he] at hc
      exact hc
    | some l =>
      rw [he] at hc
      obtain rfl : l = c := Option.some.inj hc
      rw [Option.mem_def.1 (ih he)]
      rfl
  | @escaped d ws s e hws h ih =>
    rw [List.getLast?_append] at hc
    cases he : e.getLast? with
    | none =>
      rw [he, Option.none_or] at hc
      rw [isBlank_escapes hws c (List.mem_of_getLast? hc)] at hblank
      cases hblank
    | some l =>
      rw [he, Option.some_or] at hc
      obtain rfl : l = c := Option.some.inj hc
      rw [List.getLast?_cons, Option.mem_def.1 (ih he)]
      rfl

end IsEscaping

end ReleaseCatalog.Text
