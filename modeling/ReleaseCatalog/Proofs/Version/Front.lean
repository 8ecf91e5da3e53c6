import ReleaseCatalog.Proofs.Version.Derivation

namespace ReleaseCatalog.Family

open Text (Reading isDigit)
open Text.Reading

variable {f : Family} {sp : Spelling} {before : Option Char} {s t w : List Char}

theorem mem_product (o : Opening) (t : List Char) : ((), t) ∈ product (o.text ++ t) := by
  have hjdk {x : Option Unit} {s : List Char} (h : (x, t) ∈ maybe (literal ['-']) s) :
      ((), t) ∈ product ("jdk".toList ++ s) := by
    rw [product]
    refine mem_bind.2 ⟨some x, t, mem_maybe_some.2 ?_, mem_pure.2 ⟨rfl, rfl⟩⟩
    exact mem_bind.2 ⟨(), s, mem_literal.2 rfl, h⟩
  cases o with
  | bare => exact mem_bind.2 ⟨none, t, mem_maybe_none.2 rfl, mem_pure.2 ⟨rfl, rfl⟩⟩
  | jdk => exact hjdk (mem_maybe_none.2 rfl)
  | hyphenated => exact hjdk (mem_maybe_some.2 (mem_literal.2 rfl))

theorem IsNumberWord.many_ne_nil (hw : IsNumberWord w) (t : List Char) :
    many isDigit (w ++ t) ≠ [] := by
  obtain ⟨c, v, rfl⟩ := List.exists_cons_of_ne_nil hw.1
  have hc : isDigit c = true := hw.2 c (List.mem_cons_self ..)
  refine List.ne_nil_of_mem (mem_many.2 ⟨?_, List.mem_singleton_self _⟩)
  rw [List.cons_append, List.takeWhile_cons_of_pos hc]
  exact List.cons_ne_nil _ _

theorem IsLeadingWord.leading_ne_nil (hw : IsLeadingWord w) (t : List Char) :
    leading (w ++ t) ≠ [] := by
  obtain ⟨c, v, rfl⟩ := List.exists_cons_of_ne_nil hw.1.1
  rw [leading, headed]
  apply bind_ne_nil (mem_one.2 ⟨rfl, hw.2 c rfl⟩)
  exact (IsTotal.run isDigit).bind (fun _ => .pure _) (v ++ t)

theorem IsLeadingWord.mem_leading (hw : IsLeadingWord w)
    (ht : ∀ c ∈ t.head?, isDigit c = false) : (w, t) ∈ leading (w ++ t) := by
  obtain ⟨c, v, rfl⟩ := List.exists_cons_of_ne_nil hw.1.1
  have hdigits : ∀ d ∈ v, isDigit d = true := fun d hd => hw.1.2 d (List.mem_cons_of_mem _ hd)
  have hrun := mem_run.2 ⟨rfl, hdigits, ht⟩
  exact mem_bind.2 ⟨c, v ++ t, mem_one.2 ⟨rfl, hw.2 c rfl⟩,
    mem_bind.2 ⟨v, t, hrun, mem_pure.2 ⟨rfl, rfl⟩⟩⟩

theorem isTotal_closing (front : Spelling) (pre : Option (List Char)) :
    IsTotal (closing front pre) :=
  (IsTotal.maybe _).bind fun _ => (IsTotal.maybe _).bind fun _ => .pure _

theorem isTotal_tail (front : Spelling) : IsTotal (tail front) :=
  (IsTotal.maybe _).bind fun _ => isTotal_closing front _

def behindSecurity (major : List Char) (minor security : Option (List Char)) :
    Reading Spelling := do
  let patch ← maybe (numberAfter ['.'])
  tail { major, minor, security, patch }

def behindMinor (major : List Char) (minor : Option (List Char)) : Reading Spelling := do
  let security ← maybe (numberAfter ['.'])
  behindSecurity major minor security

def behindMajor (major : List Char) : Reading Spelling := do
  let minor ← maybe (numberAfter ['.'])
  behindMinor major minor

theorem isTotal_behindSecurity (major : List Char) (minor security : Option (List Char)) :
    IsTotal (behindSecurity major minor security) :=
  (IsTotal.maybe _).bind fun _ => isTotal_tail _

theorem isTotal_behindMinor (major : List Char) (minor : Option (List Char)) :
    IsTotal (behindMinor major minor) :=
  (IsTotal.maybe _).bind fun _ => isTotal_behindSecurity major minor _

theorem isTotal_behindMajor (major : List Char) : IsTotal (behindMajor major) :=
  (IsTotal.maybe _).bind fun _ => isTotal_behindMinor major _

theorem jep223Name_eq : jep223Name = product >>= fun _ => leading >>= behindMajor := rfl

/-- A text that begins with what a family writes has something taken off its front, if perhaps
another part than that. -/
theorem Writes.name_ne_nil (h : f.Writes sp w) (t : List Char) : f.name (w ++ t) ≠ [] := by
  cases h with
  | @nightly major opening hmajor marked date =>
    obtain ⟨x, hx⟩ : ∃ x, (x, '-' :: (date.text ++ t)) ∈ maybe (literal ['u'])
        ((if marked then ['u'] else []) ++ '-' :: (date.text ++ t)) := by
      cases marked with
      | true => exact ⟨some (), mem_maybe_some.2 (mem_literal.2 rfl)⟩
      | false => exact ⟨none, mem_maybe_none.2 rfl⟩
    simp only [List.append_assoc, List.cons_append]
    apply bind_ne_nil (mem_product opening _)
    apply bind_ne_nil (hmajor.mem_leading (isDigit_head?_mark marked _))
    apply bind_ne_nil hx
    apply bind_ne_nil (mem_literal.2 rfl)
    exact bind_ne_nil (mem_of_first? (first?_date date t)) (List.cons_ne_nil _ _)
  | legacy hline hsecurity hbuild =>
    simp only [List.append_assoc, List.cons_append]
    apply bind_ne_nil (mem_literal.2 rfl)
    apply bind_ne_nil (mem_one.2 ⟨rfl, hline⟩)
    apply bind_ne_nil (mem_literal.2 rfl)
    obtain ⟨⟨v, u⟩, hmany⟩ := List.exists_mem_of_ne_nil _ (hsecurity.many_ne_nil _)
    exact bind_ne_nil hmany ((IsTotal.maybe _).bind (fun _ => .pure _) u)
  | update jdk hmajor hsecurity hbuild =>
    obtain ⟨x, hx⟩ : ∃ x, ∀ u, (x, u) ∈ maybe (literal "jdk".toList)
        ((if jdk then "jdk".toList else []) ++ u) := by
      cases jdk with
      | true => exact ⟨some (), fun u => mem_maybe_some.2 (mem_literal.2 rfl)⟩
      | false => exact ⟨none, fun u => mem_maybe_none.2 rfl⟩
    simp only [List.append_assoc, List.cons_append]
    apply bind_ne_nil (hx _)
    apply bind_ne_nil (hmajor.mem_leading (by simp; decide))
    apply bind_ne_nil (mem_literal.2 rfl)
    obtain ⟨⟨v, u⟩, hmany⟩ := List.exists_mem_of_ne_nil _ (hsecurity.many_ne_nil _)
    exact bind_ne_nil hmany ((IsTotal.maybe _).bind (fun _ => .pure _) u)
  | jep223 opening hmajor =>
    simp only [List.append_assoc]
    rw [name, jep223Name_eq]
    apply bind_ne_nil (mem_product opening _)
    obtain ⟨⟨v, u⟩, hleading⟩ := List.exists_mem_of_ne_nil _ (hmajor.leading_ne_nil _)
    exact bind_ne_nil hleading (isTotal_behindMajor v u)

theorem name_ne_nil_iff : f.name s ≠ [] ↔ ∃ sp w t, f.Writes sp w ∧ s = w ++ t := by
  constructor
  · intro h
    obtain ⟨⟨sp, t⟩, hmem⟩ := List.exists_mem_of_ne_nil _ h
    obtain ⟨w, rfl, hw⟩ := writes_of_mem hmem
    exact ⟨sp, w, t, hw, rfl⟩
  · rintro ⟨sp, w, t, hw, rfl⟩
    exact hw.name_ne_nil t

theorem tagAfter_ne_nil (p : Tag) (t : List Char) : tagAfter ('-' :: (p.text ++ t)) ≠ [] := by
  apply bind_ne_nil (mem_literal.2 rfl)
  apply bind_ne_nil (mem_one.2 ⟨rfl, p.isAlpha_first⟩)
  exact (IsTotal.run _).bind (fun _ => .pure _) _

theorem of_first?_tail {front : Spelling} (h : first? (tail front) s = some (sp, t)) :
    s = sp.closing ++ t ∧ sp.minor = front.minor ∧ sp.security = front.security ∧
      sp.patch = front.patch ∧ (sp.pre = none → tagAfter s = []) := by
  obtain ⟨pre, u, hpre, h⟩ := exists_first?_of_bind (isTotal_closing front) h
  obtain ⟨build, v, hbuild, h⟩ := mem_bind.1 (mem_of_first? h)
  obtain ⟨optional, v', hoptional, h⟩ := mem_bind.1 h
  obtain ⟨rfl, rfl⟩ := mem_pure.1 h
  obtain ⟨hs, -⟩ := of_mem_tagAfter (mem_of_first? hpre)
  obtain ⟨hu, -⟩ := of_mem_buildAfter hbuild
  obtain ⟨hv, -⟩ := of_mem_suffixAfter hoptional
  refine ⟨?_, rfl, rfl, rfl, ?_⟩
  · rw [hs, hu, hv, Spelling.closing, Spelling.buildPart, List.append_assoc, List.append_assoc]
    cases build <;> rfl
  · rintro rfl
    rcases of_first?_maybe hpre with ⟨_, hsome, -⟩ | ⟨-, -, hnil⟩
    · cases hsome
    · exact hnil

theorem isSome_of_first?_dotted {x y : Option (List Char)} {u v : List Char}
    (hx : first? (maybe (numberAfter ['.'])) s = some (x, u))
    (hy : first? (maybe (numberAfter ['.'])) u = some (y, v)) (h : y.isSome) : x.isSome := by
  rcases of_first?_maybe hx with ⟨w, rfl, -⟩ | ⟨rfl, rfl, hnil⟩
  · rfl
  · rw [first?_maybe_none hnil] at hy
    cases hy
    exact h

theorem isPreferred_of_first? (h : first? jep223Name (w ++ t) = some (sp, t))
    (hw : Writes .jep223 sp w) : IsPreferred sp w := by
  rw [jep223Name_eq] at h
  obtain ⟨_, s₁, -, h⟩ := exists_mem_of_first?_bind h
  obtain ⟨major, s₂, -, h⟩ := exists_mem_of_first?_bind h
  obtain ⟨minor, s₃, hminor, h⟩ := exists_first?_of_bind (isTotal_behindMinor major) h
  obtain ⟨security, s₄, hsecurity, h⟩ := exists_first?_of_bind (isTotal_behindSecurity major minor) h
  obtain ⟨patch, s₅, hpatch, h⟩ := exists_first?_of_bind (fun _ => isTotal_tail _) h
  obtain ⟨hs₅, hminor_eq, hsecurity_eq, hpatch_eq, htag⟩ := of_first?_tail h
  refine ⟨?_, ?_, ?_⟩
  · rw [hminor_eq, hsecurity_eq]
    exact isSome_of_first?_dotted hminor hsecurity
  · rw [hsecurity_eq, hpatch_eq]
    exact isSome_of_first?_dotted hsecurity hpatch
  · intro other hother u hu
    cases hpre : sp.pre with
    | some v => rw [hw.tag_unique hother hpre hu]
    | none =>
      -- Another way has a tag behind the numbers, and the reading would have taken it.
      obtain ⟨p, rfl⟩ := hother.isVersionString.isTagWord u hu
      have hclosing : sp.closing = '-' :: (p.text ++ other.buildPart) := by
        rw [(hw.parts_eq hother).2, Spelling.closing, Option.mem_def.1 hu]
        rfl
      apply absurd (htag hpre)
      rw [hs₅, hclosing, List.cons_append, List.append_assoc]
      exact tagAfter_ne_nil p _

/-- The part that a family prefers is derived with the words found, as if it were the whole text. -/
theorem exists_derives_of_first? (h : first? f.name s = some (sp, t)) :
    ∃ w, f.Derives sp w ∧ s = w ++ t := by
  obtain ⟨w, rfl, hw⟩ := writes_of_mem (mem_of_first? h)
  refine ⟨w, ⟨hw, ?_⟩, rfl⟩
  rintro rfl
  exact isPreferred_of_first? h hw

/-- A text that follows `before` begins with a name of the family. -/
def Begins (f : Family) (before : Option Char) (s : List Char) : Prop :=
  ∃ u sp w t, f.IsGap before u ∧ f.Writes sp w ∧ s = u ++ (w ++ t)

theorem nameAfter_ne_nil_iff : nameAfter f before s ≠ [] ↔ f.Begins before s := by
  constructor
  · intro h
    obtain ⟨way, hmem⟩ := List.exists_mem_of_ne_nil _ h
    obtain ⟨_, v, hlead, hname⟩ := mem_bind.1 hmem
    obtain ⟨u, hu, rfl⟩ := mem_lead_iff.1 hlead
    obtain ⟨sp, w, t, hw, rfl⟩ := name_ne_nil_iff.1 (List.ne_nil_of_mem hname)
    exact ⟨u, sp, w, t, hu, hw, rfl⟩
  · rintro ⟨u, sp, w, t, hu, hw, rfl⟩
    apply bind_ne_nil (a := ()) (mem_lead_iff.2 ⟨u, hu, rfl⟩)
    exact name_ne_nil_iff.2 ⟨sp, w, t, hw, rfl⟩

theorem exists_derives_of_first?_nameAfter (h : first? (nameAfter f before) s = some (sp, t)) :
    ∃ u w, f.IsGap before u ∧ f.Derives sp w ∧ s = u ++ (w ++ t) := by
  obtain ⟨_, v, hlead, hname⟩ := exists_mem_of_first?_bind h
  obtain ⟨u, hu, rfl⟩ := mem_lead_iff.1 hlead
  obtain ⟨w, hw, rfl⟩ := exists_derives_of_first? hname
  exact ⟨u, w, hu, hw, rfl⟩

end ReleaseCatalog.Family
