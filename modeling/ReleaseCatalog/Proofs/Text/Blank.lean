import Mathlib.Data.List.DropRight
import ReleaseCatalog.Text.Character

namespace ReleaseCatalog.Text

/-- The code points of the blanks. -/
def blankCodes : List Nat := [
  0x20, 0x09, 0x0a, 0x0b, 0x0c, 0x0d, 0x85, 0xa0, 0x1680, 0x2000, 0x2001, 0x2002, 0x2003, 0x2004,
  0x2005, 0x2006, 0x2007, 0x2008, 0x2009, 0x200a, 0x2028, 0x2029, 0x202f, 0x205f, 0x3000]

theorem toNat_mem_blankCodes {c : Char} (h : isBlank c = true) : c.toNat ∈ blankCodes := by
  have heq (d : Char) (hd : (c == d) = true) : c.toNat = d.toNat := by rw [beq_iff_eq.1 hd]
  have hbetween (d e : Char) (hd : (d ≤ c && c ≤ e : Bool) = true) :
      d.toNat ≤ c.toNat ∧ c.toNat ≤ e.toNat := by
    simpa [Char.le_def, UInt32.le_iff_toNat_le] using hd
  simp only [isBlank, Bool.or_eq_true] at h
  simp only [blankCodes, List.mem_cons, List.not_mem_nil, or_false]
  rcases h with ((((((((((h | h) | h) | h) | h) | h) | h) | h) | h) | h) | h)
  case inl.inl.inl.inl.inl.inl.inl.inl.inl.inr =>
    have hcode : 0x09 ≤ c.toNat ∧ c.toNat ≤ 0x0d := hbetween _ _ h
    omega
  case inl.inl.inl.inl.inl.inr =>
    have hcode : 0x2000 ≤ c.toNat ∧ c.toNat ≤ 0x200a := hbetween _ _ h
    omega
  all_goals
    have hcode := heq _ h
    simp [hcode]

theorem forall_isBlank {P : Char → Prop} (h : ∀ n ∈ blankCodes, P (Char.ofNat n)) {c : Char}
    (hc : isBlank c = true) : P c := by
  rw [← Char.ofNat_toNat c]
  exact h _ (toNat_mem_blankCodes hc)

theorem isDigit_of_isBlank {c : Char} (h : isBlank c = true) : isDigit c = false :=
  forall_isBlank (P := fun c => isDigit c = false) (by decide +kernel) h

theorem isWordChar_of_isBlank {c : Char} (h : isBlank c = true) : isWordChar c = false :=
  forall_isBlank (P := fun c => isWordChar c = false) (by decide +kernel) h

theorem isAlphanum_of_isBlank {c : Char} (h : isBlank c = true) : c.isAlphanum = false :=
  forall_isBlank (P := fun c => c.isAlphanum = false) (by decide) h

theorem isBlank_toLower {c : Char} (h : isBlank c = true) : isBlank c.toLower = true :=
  forall_isBlank (P := fun c => isBlank c.toLower = true) (by decide) h

theorem isDigit_of_isAsciiDigit {c : Char} (h : isAsciiDigit c = true) : isDigit c = true := by
  have hc : c.toNat < 0x80 := by
    have hle : 48 ≤ c.toNat ∧ c.toNat ≤ 57 := by
      simpa [isAsciiDigit, Char.le_def, UInt32.le_iff_toNat_le] using h
    omega
  rw [isDigit_eq_isAsciiDigit hc, h]

theorem forall_isAlpha {P : Char → Prop}
    (h : ∀ n < 128, (Char.ofNat n).isAlpha = true → P (Char.ofNat n)) {c : Char}
    (hc : c.isAlpha = true) : P c := by
  have hcode : c.toNat < 128 := by
    have hcase : (decide (c.val ≥ 'A'.val ∧ c.val ≤ 'Z'.val) ||
        (c.val ≥ 'a'.val && c.val ≤ 'z'.val : Bool)) = true := hc
    have hle : 65 ≤ c.toNat ∧ c.toNat ≤ 90 ∨ 97 ≤ c.toNat ∧ c.toNat ≤ 122 := by
      simpa [UInt32.le_iff_toNat_le] using hcase
    omega
  rw [← Char.ofNat_toNat c] at hc ⊢
  exact h _ hcode hc

theorem isDigit_of_isAlpha {c : Char} (h : c.isAlpha = true) : isDigit c = false :=
  forall_isAlpha (P := fun c => isDigit c = false) (by decide +kernel) h

theorem isAlpha_toLower {c : Char} (h : c.isAlpha = true) : c.toLower.isAlpha = true :=
  forall_isAlpha (P := fun c => c.toLower.isAlpha = true) (by decide +kernel) h

theorem toLower_ne_of_isAlpha {c d : Char} (hc : c.isAlpha = true) (hd : d.isAlpha = false) :
    c.toLower ≠ d := by
  rintro rfl
  rw [isAlpha_toLower hc] at hd
  cases hd

/-- A class that is not found in a word has none of its characters. -/
theorem forall_eq_false {p : Char → Bool} {w : List Char} (h : w.any p = false) :
    ∀ c ∈ w, p c = false := fun c hc => eq_false_of_ne_true (List.any_eq_false.1 h c hc)

section Trim

variable {s x w y : List Char}

theorem trimStart_append (hw : ∀ c ∈ w.head?, isBlank c = false) :
    trimStart (x ++ w) = trimStart x ++ w := by
  have hstop : w.dropWhile isBlank = w := by
    cases w with
    | nil => rfl
    | cons c w => rw [List.dropWhile_cons_of_neg]; simp [hw c rfl]
  rw [trimStart, trimStart, List.dropWhile_append, hstop]
  split
  · next h => rw [List.isEmpty_iff.1 h, List.nil_append]
  · rfl

theorem trimEnd_append (hw : ∀ c ∈ w.getLast?, isBlank c = false) :
    trimEnd (w ++ y) = w ++ trimEnd y := by
  have h := trimStart_append (x := y.reverse) (w := w.reverse) (by simpa using hw)
  rw [trimStart, trimStart] at h
  rw [trimEnd, trimEnd, List.reverse_append, h, List.reverse_append, List.reverse_reverse]

theorem trim_append (hne : w ≠ []) (hhead : ∀ c ∈ w.head?, isBlank c = false)
    (hlast : ∀ c ∈ w.getLast?, isBlank c = false) :
    trim (x ++ (w ++ y)) = trimStart x ++ (w ++ trimEnd y) := by
  have hstart : ∀ c ∈ (w ++ y).head?, isBlank c = false := by
    rw [List.head?_append_of_ne_nil _ hne]
    exact hhead
  have hend : ∀ c ∈ (trimStart x ++ w).getLast?, isBlank c = false := by
    rw [List.getLast?_append_of_ne_nil _ hne]
    exact hlast
  rw [trim, trimStart_append hstart, ← List.append_assoc, trimEnd_append hend, List.append_assoc]

theorem trimStart_trimStart (s : List Char) : trimStart (trimStart s) = trimStart s := by
  rw [trimStart, trimStart, List.dropWhile_idempotent]

theorem trimEnd_trimEnd (s : List Char) : trimEnd (trimEnd s) = trimEnd s := by
  rw [trimEnd, trimEnd, List.reverse_reverse, List.dropWhile_idempotent]

theorem trimStart_suffix (s : List Char) : trimStart s <:+ s := List.dropWhile_suffix _

theorem trimEnd_prefix (s : List Char) : trimEnd s <+: s := by
  have h : s.reverse.dropWhile isBlank <:+ s.reverse := List.dropWhile_suffix _
  simpa [trimEnd] using List.reverse_prefix.2 h

theorem isBlank_getLast?_trimStart (h : ∀ c ∈ s.getLast?, isBlank c = true) :
    ∀ c ∈ (trimStart s).getLast?, isBlank c = true := by
  intro c hc
  obtain ⟨u, hu⟩ := trimStart_suffix s
  apply h c
  rw [← hu, List.getLast?_append, hc]
  rfl

theorem isBlank_head?_trimEnd (h : ∀ c ∈ s.head?, isBlank c = true) :
    ∀ c ∈ (trimEnd s).head?, isBlank c = true := by
  intro c hc
  obtain ⟨u, hu⟩ := trimEnd_prefix s
  apply h c
  rw [← hu, List.head?_append, hc]
  rfl

theorem trimStart_of_isBlank (hx : ∀ c ∈ x, isBlank c = true) : trimStart x = [] := by
  rw [trimStart, List.dropWhile_eq_nil_iff]
  exact hx

theorem trimEnd_of_isBlank (hy : ∀ c ∈ y, isBlank c = true) : trimEnd y = [] := by
  have h : trimStart y.reverse = [] := trimStart_of_isBlank fun c hc => hy c (List.mem_reverse.1 hc)
  rw [trimStart] at h
  rw [trimEnd, h, List.reverse_nil]

theorem trim_of_isBlank (hx : ∀ c ∈ x, isBlank c = true) : trim x = [] := by
  rw [trim, trimStart_of_isBlank hx]
  rfl

theorem trim_padded (hx : ∀ c ∈ x, isBlank c = true) (hs : ∀ c ∈ s, isBlank c = false)
    (hy : ∀ c ∈ y, isBlank c = true) : trim (x ++ (s ++ y)) = s := by
  by_cases hne : s = []
  · rw [hne, List.nil_append]
    apply trim_of_isBlank
    intro c hc
    exact (List.mem_append.1 hc).elim (hx c) (hy c)
  · rw [trim_append hne (fun c hc => hs c (List.mem_of_head? hc))
      (fun c hc => hs c (List.mem_of_getLast? hc)), trimStart_of_isBlank hx, trimEnd_of_isBlank hy,
      List.append_nil, List.nil_append]

theorem trim_trimStart (s : List Char) : trim (trimStart s) = trim s := by
  rw [trim, trim, trimStart_trimStart]

theorem trim_trimEnd_padded (hx : ∀ c ∈ x, isBlank c = true) (hs : ∀ c ∈ s, isBlank c = false)
    (hy : ∀ c ∈ y, isBlank c = true) : trim (trimEnd (x ++ (s ++ y))) = s := by
  by_cases hne : s = []
  · have hblank : ∀ c ∈ x ++ (s ++ y), isBlank c = true := by
      rw [hne, List.nil_append]
      exact fun c hc => (List.mem_append.1 hc).elim (hx c) (hy c)
    rw [trimEnd_of_isBlank hblank, hne]
    rfl
  · have hlast : ∀ c ∈ (x ++ s).getLast?, isBlank c = false := by
      rw [List.getLast?_append_of_ne_nil _ hne]
      exact fun c hc => hs c (List.mem_of_getLast? hc)
    rw [← List.append_assoc, trimEnd_append hlast, trimEnd_of_isBlank hy, List.append_assoc,
      trim_padded hx hs (by simp)]

theorem isBlank_head?_trim {c : Char} (h : c ∈ (trim s).head?) : isBlank c = false := by
  have hprefix : c ∈ (trimStart s).head? := by
    obtain ⟨u, hu⟩ := trimEnd_prefix (trimStart s)
    have hc : (trimEnd (trimStart s)).head? = some c := h
    rw [← hu, List.head?_append, hc]
    rfl
  have hstop := List.head?_dropWhile_not isBlank s
  rw [show s.dropWhile isBlank = trimStart s from rfl, Option.mem_def.1 hprefix] at hstop
  simpa using hstop

theorem isBlank_getLast?_trim {c : Char} (h : c ∈ (trim s).getLast?) : isBlank c = false := by
  rw [trim, trimEnd, List.getLast?_reverse] at h
  have hstop := List.head?_dropWhile_not isBlank (trimStart s).reverse
  rw [Option.mem_def.1 h] at hstop
  simpa using hstop

end Trim

theorem percentBytes_cons {c : Char} (h : c ≠ '%') (s : List Char) :
    percentBytes (c :: s) = String.utf8EncodeChar c ++ percentBytes s := by
  rw [percentBytes]
  rintro a b t rfl -
  exact h rfl

theorem percentBytes_of_not_mem {s : List Char} (h : '%' ∉ s) :
    percentBytes s = s.flatMap String.utf8EncodeChar := by
  induction s with
  | nil => rfl
  | cons c s ih =>
    rw [List.mem_cons, not_or] at h
    rw [List.flatMap_cons, ← ih h.2, percentBytes_cons (Ne.symm h.1)]

/-- What stands for the bytes of a text is read as the text. -/
theorem percentDecode_of_percentBytes {s t : List Char}
    (h : percentBytes s = t.flatMap String.utf8EncodeChar) : percentDecode s = t := by
  have hbytes : ByteArray.mk (percentBytes s).toArray = t.utf8Encode := by
    rw [h]
    apply ByteArray.ext
    rw [List.utf8Encode, List.data_toByteArray]
  rw [percentDecode, hbytes, List.utf8Decode?_utf8Encode]

theorem percentDecode_of_not_mem {s : List Char} (h : '%' ∉ s) : percentDecode s = s :=
  percentDecode_of_percentBytes (percentBytes_of_not_mem h)

end ReleaseCatalog.Text
