import Mathlib.Data.List.Nodup
import ReleaseCatalog.Archive.Import
import ReleaseCatalog.Proofs.Catalog.Union
import ReleaseCatalog.Proofs.Release.RoundTrip

namespace ReleaseCatalog

/-- What is known of a stored release. -/
structure Holding where
  release : Release
  /-- Whether the time of the last write is known. -/
  imported : Bool
deriving DecidableEq

/-- What is stored under each id. -/
abbrev Holdings : Type := String → Option Holding

namespace Holdings

def empty : Holdings := fun _ => none

/-- A release in the place of any other of its id. -/
def file (imported : Bool) (h : Holdings) (r : Release) : Holdings :=
  fun id => if r.id = id then some ⟨r, imported⟩ else h id

/-- Releases filed in turn: of those of one id the last counts. -/
def fileAll (imported : Bool) (h : Holdings) (rs : List Release) : Holdings :=
  fun id => ((rs.reverse.find? (·.id == id)).map fun r => ⟨r, imported⟩).or (h id)

def erase (h : Holdings) (id : String) : Holdings := fun id' => if id = id' then none else h id'

/-- The release under an id, if it is of the given feature version. -/
def line (h : Holdings) (f : UInt32) (id : String) : Option Release :=
  ((h id).map (·.release)).filter (·.featureVersion == f)

theorem line_eq_some {h : Holdings} {f : UInt32} {id : String} {r : Release} :
    h.line f id = some r ↔ ∃ b, h id = some ⟨r, b⟩ ∧ r.featureVersion = f := by
  rw [line, Option.filter_eq_some_iff, Option.map_eq_some_iff, beq_iff_eq]
  constructor
  · rintro ⟨⟨x, hx, rfl⟩, hf⟩
    exact ⟨x.imported, hx, hf⟩
  · rintro ⟨b, hx, hf⟩
    exact ⟨⟨_, hx, rfl⟩, hf⟩

theorem fileAll_cons (imported : Bool) (h : Holdings) (r : Release) (rs : List Release) :
    h.fileAll imported (r :: rs) = (h.file imported r).fileAll imported rs := by
  funext id
  rw [fileAll, fileAll, List.reverse_cons, List.find?_append, file]
  by_cases hid : r.id = id
  · cases rs.reverse.find? (·.id == id) <;> simp [hid]
  · simp [hid]

theorem fileAll_of_not_mem {rs : List Release} {id : String} (h : id ∉ rs.map (·.id))
    (imported : Bool) (held : Holdings) : held.fileAll imported rs id = held id := by
  have hnone : rs.reverse.find? (·.id == id) = none := by
    rw [List.find?_eq_none]
    intro r hr he
    exact h (List.mem_map.2 ⟨r, List.mem_reverse.1 hr, beq_iff_eq.1 he⟩)
  rw [fileAll, hnone, Option.map_none, Option.none_or]

end Holdings

theorem exists_mapM_eq_some {α β : Type} {f : α → Option β} {l : List α}
    (h : ∀ a ∈ l, ∃ b, f a = some b) :
    ∃ bs, l.mapM f = some bs ∧ ∀ b, b ∈ bs ↔ ∃ a ∈ l, f a = some b := by
  induction l with
  | nil => exact ⟨[], rfl, by simp⟩
  | cons a l ih =>
    obtain ⟨b, hb⟩ := h a (List.mem_cons_self ..)
    obtain ⟨bs, hbs, hmem⟩ := ih fun x hx => h x (List.mem_cons_of_mem _ hx)
    refine ⟨b :: bs, by simp [hb, hbs], fun c => ?_⟩
    simp [hmem, hb, eq_comm]

theorem mapM_eq_none {α β : Type} {f : α → Option β} {l : List α} :
    l.mapM f = none ↔ ∃ x ∈ l, f x = none := by
  constructor
  · intro h
    by_contra hnone
    simp only [not_exists, not_and, Option.ne_none_iff_exists'] at hnone
    obtain ⟨ys, hys, -⟩ := exists_mapM_eq_some hnone
    rw [h] at hys
    cases hys
  · rintro ⟨x, hx, hnone⟩
    induction l with
    | nil => cases hx
    | cons y l ih =>
      rw [List.mapM_cons]
      rcases List.mem_cons.1 hx with rfl | hx
      · rw [hnone]
        rfl
      · rw [ih hx]
        cases f y <;> rfl

namespace Entry

/-- What a row keeps, if its document can be read. -/
def held? (e : Entry) : Option Holding :=
  (Release.parse? e.document).map fun r => ⟨r, e.importedAt.isSome⟩

/-- A row that keeps a release under the id and the feature version of the release. -/
def IsSound (e : Entry) : Prop :=
  ∃ r, Release.parse? e.document = some r ∧ r.id = e.id ∧ r.featureVersion = e.featureVersion

end Entry

namespace Archive

theorem mem_ascending {fs : List UInt32} {f : UInt32} : f ∈ ascending fs ↔ f ∈ fs := by
  rw [ascending, List.mem_eraseDups, List.mem_mergeSort]

theorem pairwise_eraseDups {fs : List UInt32} (h : fs.Pairwise (· ≤ ·)) :
    fs.eraseDups.Pairwise (· < ·) := by
  induction hn : fs.length using Nat.strongRecOn generalizing fs with
  | ind n ih =>
    cases fs with
    | nil => exact List.Pairwise.nil
    | cons f fs =>
      obtain ⟨hf, hfs⟩ := List.pairwise_cons.1 h
      rw [List.length_cons] at hn
      have hlength := List.length_filter_le (fun g => !g == f) fs
      rw [List.eraseDups_cons]
      refine List.pairwise_cons.2 ⟨fun g hg => ?_, ih _ (by omega) (hfs.filter _) rfl⟩
      obtain ⟨hg, hne⟩ := List.mem_filter.1 (List.mem_eraseDups.1 hg)
      have hgf : g ≠ f := by simpa using hne
      exact UInt32.lt_of_le_of_ne (hf g hg) hgf.symm

theorem pairwise_ascending (fs : List UInt32) : (ascending fs).Pairwise (· < ·) := by
  have htrans (f g k : UInt32) (hfg : decide (f ≤ g) = true) (hgk : decide (g ≤ k) = true) :
      decide (f ≤ k) = true :=
    decide_eq_true (UInt32.le_trans (of_decide_eq_true hfg) (of_decide_eq_true hgk))
  have htotal (f g : UInt32) : (decide (f ≤ g) || decide (g ≤ f)) = true := by
    simpa using UInt32.le_total f g
  exact pairwise_eraseDups
    ((List.pairwise_mergeSort htrans htotal fs).imp fun h => of_decide_eq_true h)

def row? (a : Archive) (id : String) : Option Entry := a.entries.find? (·.id == id)

theorem row?_eq_some {a : Archive} {id : String} {e : Entry} :
    a.row? id = some e ↔ e ∈ a.entries ∧ e.id = id := by
  constructor
  · intro h
    exact ⟨List.mem_of_find?_eq_some h, by simpa using List.find?_some h⟩
  · rintro ⟨he, rfl⟩
    cases hf : a.row? e.id with
    | none =>
      have hne := List.find?_eq_none.1 hf e he
      simp at hne
    | some x =>
      have hid : x.id = e.id := by simpa using List.find?_some hf
      rw [List.inj_on_of_nodup_map a.ids_nodup (List.mem_of_find?_eq_some hf) he hid]

theorem row?_eq_none {a : Archive} {id : String} :
    a.row? id = none ↔ ∀ e ∈ a.entries, e.id ≠ id := by
  simp [row?]

theorem row?_ext {a b : Archive} {id : String}
    (h : ∀ e : Entry, e.id = id → (e ∈ a.entries ↔ e ∈ b.entries)) : a.row? id = b.row? id := by
  ext e
  rw [row?_eq_some, row?_eq_some]
  exact and_congr_left fun he => h e he

theorem row?_file (a : Archive) (e : Entry) (id : String) :
    (a.file e).row? id = if e.id = id then some e else a.row? id := by
  split
  · next he => exact row?_eq_some.2 ⟨mem_file.2 (.inl rfl), he⟩
  · next he =>
    apply row?_ext
    rintro x rfl
    rw [mem_file]
    constructor
    · rintro (rfl | ⟨hx, -⟩)
      · exact absurd rfl he
      · exact hx
    · exact fun hx => .inr ⟨hx, Ne.symm he⟩

theorem row?_erase (a : Archive) (id id' : String) :
    (a.erase id).row? id' = if id = id' then none else a.row? id' := by
  split
  · next he =>
    rw [row?_eq_none]
    exact fun e h => he ▸ (mem_erase.1 h).2
  · next he =>
    apply row?_ext
    rintro x rfl
    rw [mem_erase]
    exact and_iff_left (Ne.symm he)

theorem row?_fileAll (a : Archive) (importedAt : Option Instant) (rs : List Release) (id : String) :
    (a.fileAll importedAt rs).row? id =
      ((rs.reverse.find? (·.id == id)).map (entryOf importedAt)).or (a.row? id) := by
  induction rs generalizing a with
  | nil => rfl
  | cons r rs ih =>
    rw [fileAll, List.foldl_cons]
    refine (ih _).trans ?_
    rw [row?_file, List.reverse_cons, List.find?_append]
    by_cases hid : r.id = id
    · cases rs.reverse.find? (·.id == id) <;> simp [hid, entryOf]
    · simp [hid, entryOf]

theorem row?_eraseAll (a : Archive) (ids : List String) (id : String) :
    (a.eraseAll ids).row? id = if id ∈ ids then none else a.row? id := by
  induction ids generalizing a with
  | nil => simp [eraseAll]
  | cons i ids ih =>
    rw [eraseAll, List.foldl_cons]
    refine (ih _).trans ?_
    rw [row?_erase]
    by_cases hi : i = id
    · simp [hi]
    · simp [hi, Ne.symm hi]

theorem contains_eq_isSome (a : Archive) (id : String) :
    a.contains id = (a.row? id).isSome := by
  rw [contains, row?, List.isSome_find?]

def holdings (a : Archive) : Holdings := fun id => (a.row? id).bind Entry.held?

theorem held?_entryOf (importedAt : Option Instant) (r : Release) :
    (entryOf importedAt r).held? = some ⟨r, importedAt.isSome⟩ := by
  rw [Entry.held?, entryOf, Release.parse?_print, Option.map_some]

theorem holdings_file (a : Archive) (importedAt : Option Instant) (r : Release) :
    (a.file (entryOf importedAt r)).holdings = a.holdings.file importedAt.isSome r := by
  funext id
  rw [holdings, row?_file, Holdings.file]
  by_cases h : r.id = id
  · rw [if_pos (show (entryOf importedAt r).id = id from h), if_pos h, Option.bind_some,
      held?_entryOf]
  · rw [if_neg (show ¬ (entryOf importedAt r).id = id from h), if_neg h, holdings]

theorem holdings_fileAll (a : Archive) (importedAt : Option Instant) (rs : List Release) :
    (a.fileAll importedAt rs).holdings = a.holdings.fileAll importedAt.isSome rs := by
  induction rs generalizing a with
  | nil => rfl
  | cons r rs ih =>
    rw [fileAll, List.foldl_cons, Holdings.fileAll_cons, ← holdings_file]
    exact ih _

theorem holdings_upsert (a : Archive) (now : Instant) (rs : List Release) :
    (a.upsert now rs).holdings = a.holdings.fileAll true rs :=
  a.holdings_fileAll (some now) rs

theorem holdings_erase (a : Archive) (id : String) :
    (a.erase id).holdings = a.holdings.erase id := by
  funext id'
  rw [holdings, row?_erase, Holdings.erase]
  split
  · rfl
  · rfl

theorem holdings_eraseAll (a : Archive) (ids : List String) (id : String) :
    (a.eraseAll ids).holdings id = if id ∈ ids then none else a.holdings id := by
  rw [holdings, row?_eraseAll]
  split
  · rfl
  · rfl

theorem isSound_entryOf (importedAt : Option Instant) (r : Release) :
    (entryOf importedAt r).IsSound :=
  ⟨r, Release.parse?_print r, rfl, rfl⟩

def IsSound (a : Archive) : Prop := ∀ e ∈ a.entries, e.IsSound

theorem isSound_empty : IsSound empty := by
  intro e h
  cases h

theorem IsSound.file {a : Archive} (h : a.IsSound) {e : Entry} (he : e.IsSound) :
    (a.file e).IsSound := by
  intro x hx
  rcases mem_file.1 hx with rfl | ⟨hx, -⟩
  · exact he
  · exact h x hx

theorem IsSound.fileAll {a : Archive} (h : a.IsSound) (importedAt : Option Instant)
    (rs : List Release) : (a.fileAll importedAt rs).IsSound := by
  induction rs generalizing a with
  | nil => exact h
  | cons r rs ih => exact ih (h.file (isSound_entryOf importedAt r))

theorem IsSound.upsert {a : Archive} (h : a.IsSound) (now : Instant) (rs : List Release) :
    (a.upsert now rs).IsSound :=
  h.fileAll (some now) rs

theorem IsSound.erase {a : Archive} (h : a.IsSound) (id : String) : (a.erase id).IsSound :=
  fun e he => h e (mem_erase.1 he).1

theorem IsSound.eraseAll {a : Archive} (h : a.IsSound) (ids : List String) :
    (a.eraseAll ids).IsSound := by
  induction ids generalizing a with
  | nil => exact h
  | cons id ids ih => exact ih (h.erase id)

theorem IsSound.holdings_eq_some {a : Archive} (h : a.IsSound) {id : String} {x : Holding} :
    a.holdings id = some x ↔
      ∃ e ∈ a.entries, e.id = id ∧ Release.parse? e.document = some x.release ∧
        e.featureVersion = x.release.featureVersion ∧ e.importedAt.isSome = x.imported := by
  rw [holdings, Option.bind_eq_some_iff]
  constructor
  · rintro ⟨e, he, hx⟩
    obtain ⟨hmem, hid⟩ := row?_eq_some.1 he
    obtain ⟨r, hr, rfl⟩ := Option.map_eq_some_iff.1 hx
    obtain ⟨r', hr', -, hf⟩ := h e hmem
    obtain rfl := Option.some.inj (hr.symm.trans hr')
    exact ⟨e, hmem, hid, hr, hf.symm, rfl⟩
  · rintro ⟨e, he, hid, hr, -, hi⟩
    refine ⟨e, row?_eq_some.2 ⟨he, hid⟩, ?_⟩
    rw [Entry.held?, hr, Option.map_some, hi]

theorem IsSound.id_of_holdings {a : Archive} (h : a.IsSound) {id : String} {x : Holding}
    (hx : a.holdings id = some x) : x.release.id = id := by
  obtain ⟨e, he, rfl, hr, -⟩ := h.holdings_eq_some.1 hx
  obtain ⟨r, hr', hid, -⟩ := h e he
  rw [← hid, Option.some.inj (hr.symm.trans hr')]

theorem IsSound.contains_eq_isSome {a : Archive} (h : a.IsSound) (id : String) :
    a.contains id = (a.holdings id).isSome := by
  rw [Archive.contains_eq_isSome, holdings]
  cases he : a.row? id with
  | none => rfl
  | some e =>
    obtain ⟨r, hr, -⟩ := h e (row?_eq_some.1 he).1
    rw [Option.bind_some, Entry.held?, hr]
    rfl

theorem IsSound.exists_of_documents {a : Archive} (h : a.IsSound) (f : UInt32) :
    ∃ rs, (a.documents f).mapM Release.parse? = some rs ∧
      ∀ r, r ∈ rs ↔ a.holdings.line f r.id = some r := by
  have hread : ∀ d ∈ a.documents f, ∃ r, Release.parse? d = some r := by
    intro d hd
    obtain ⟨e, he, rfl⟩ := List.mem_map.1 hd
    obtain ⟨r, hr, -⟩ := h e (List.mem_filter.1 he).1
    exact ⟨r, hr⟩
  obtain ⟨rs, hrs, hmem⟩ := exists_mapM_eq_some hread
  refine ⟨rs, hrs, fun r => (hmem r).trans ?_⟩
  rw [Holdings.line_eq_some]
  constructor
  · rintro ⟨d, hd, hr⟩
    obtain ⟨e, he, rfl⟩ := List.mem_map.1 hd
    obtain ⟨he, hf⟩ := List.mem_filter.1 he
    obtain ⟨r', hr', hid, hf'⟩ := h e he
    obtain rfl := Option.some.inj (hr.symm.trans hr')
    exact ⟨_, h.holdings_eq_some.2 ⟨e, he, hid.symm, hr, hf'.symm, rfl⟩,
      hf'.trans (beq_iff_eq.1 hf)⟩
  · rintro ⟨b, hx, hf⟩
    obtain ⟨e, he, -, hr, hf', -⟩ := h.holdings_eq_some.1 hx
    refine ⟨e.document, List.mem_map_of_mem (List.mem_filter.2 ⟨he, ?_⟩), hr⟩
    exact beq_iff_eq.2 (hf'.trans hf)

theorem IsSound.documents_eq_nil {a : Archive} (h : a.IsSound) {f : UInt32} :
    a.documents f = [] ↔ ∀ id, a.holdings.line f id = none := by
  obtain ⟨rs, hrs, hmem⟩ := h.exists_of_documents f
  constructor
  · intro hd id
    rw [hd] at hrs
    obtain rfl := Option.some.inj hrs
    cases hl : a.holdings.line f id with
    | none => rfl
    | some r =>
      obtain ⟨b, hx, -⟩ := Holdings.line_eq_some.1 hl
      obtain rfl := h.id_of_holdings hx
      exact absurd ((hmem _).2 hl) List.not_mem_nil
  · intro hl
    cases rs with
    | nil =>
      cases hd : a.documents f with
      | nil => rfl
      | cons d ds =>
        rw [hd, List.mapM_cons] at hrs
        obtain ⟨r, -, hrs⟩ := Option.bind_eq_some_iff.1 hrs
        obtain ⟨rs, -, hrs⟩ := Option.bind_eq_some_iff.1 hrs
        cases hrs
    | cons r rs =>
      have hr := (hmem r).1 (List.mem_cons_self ..)
      rw [hl] at hr
      cases hr

theorem IsSound.get?_ofReleases {a : Archive} (h : a.IsSound) {f : UInt32} {rs : List Release}
    (hrs : ∀ r, r ∈ rs ↔ a.holdings.line f r.id = some r) (id : String) :
    (Catalog.ofReleases rs).get? id = a.holdings.line f id := by
  rw [Catalog.ofReleases, Catalog.get?_insertAll, Catalog.get?_empty, Option.or_none]
  cases hfind : rs.reverse.find? (·.id == id) with
  | some r =>
    have hid : r.id = id := by simpa using List.find?_some hfind
    rw [← hid]
    exact ((hrs r).1 (List.mem_reverse.1 (List.mem_of_find?_eq_some hfind))).symm
  | none =>
    cases hl : a.holdings.line f id with
    | none => rfl
    | some r =>
      obtain ⟨b, hx, -⟩ := Holdings.line_eq_some.1 hl
      obtain rfl := h.id_of_holdings hx
      have hne := List.find?_eq_none.1 hfind _ (List.mem_reverse.2 ((hrs _).2 hl))
      simp at hne

theorem IsSound.read_of_line {a : Archive} (h : a.IsSound) {f : UInt32} {id : String} {r : Release}
    (hr : a.holdings.line f id = some r) :
    ∃ c, a.read f = .ok c ∧ ∀ id, c.get? id = a.holdings.line f id := by
  obtain ⟨rs, hrs, hmem⟩ := h.exists_of_documents f
  refine ⟨.ofReleases rs, ?_, h.get?_ofReleases hmem⟩
  cases hd : a.documents f with
  | nil =>
    rw [h.documents_eq_nil.1 hd id] at hr
    cases hr
  | cons d ds =>
    rw [hd] at hrs
    rw [read, hd]
    simp only [hrs]

theorem IsSound.read_of_none {a : Archive} (h : a.IsSound) {f : UInt32}
    (hl : ∀ id, a.holdings.line f id = none) : a.read f = .error (.notFound f) := by
  rw [read, h.documents_eq_nil.2 hl]

theorem IsSound.exists_readOrEmpty {a : Archive} (h : a.IsSound) (f : UInt32) :
    ∃ c, a.readOrEmpty f = .ok c ∧ ∀ id, c.get? id = a.holdings.line f id := by
  by_cases hl : ∀ id, a.holdings.line f id = none
  · refine ⟨.empty, ?_, fun id => ?_⟩
    · rw [readOrEmpty, h.read_of_none hl]
    · rw [Catalog.get?_empty, hl]
  · obtain ⟨id, hid⟩ := not_forall.1 hl
    obtain ⟨r, hr⟩ := Option.ne_none_iff_exists'.1 hid
    obtain ⟨c, hc, hget⟩ := h.read_of_line hr
    refine ⟨c, ?_, hget⟩
    rw [readOrEmpty, hc]

theorem IsSound.mem_featureVersions {a : Archive} (h : a.IsSound) {f : UInt32} :
    f ∈ a.featureVersions ↔ ∃ id x, a.holdings id = some x ∧ x.release.featureVersion = f := by
  rw [featureVersions, mem_ascending, List.mem_map]
  constructor
  · rintro ⟨e, he, rfl⟩
    obtain ⟨r, hr, -, hf⟩ := h e he
    exact ⟨e.id, ⟨r, e.importedAt.isSome⟩, h.holdings_eq_some.2 ⟨e, he, rfl, hr, hf.symm, rfl⟩, hf⟩
  · rintro ⟨id, x, hx, hf⟩
    obtain ⟨e, he, -, -, hfe, -⟩ := h.holdings_eq_some.1 hx
    exact ⟨e, he, hfe.trans hf⟩

theorem isSome_foldl_later (ts : List Instant) (t : Option Instant) :
    (ts.foldl later t).isSome = (t.isSome || !ts.isEmpty) := by
  induction ts generalizing t with
  | nil => simp
  | cons u ts ih =>
    have hu : (later t u).isSome = true := by
      cases t with
      | none => rfl
      | some t =>
        rw [later]
        split
        · rfl
        · rfl
    rw [List.foldl_cons, ih, hu]
    simp

/-- A last import is known once a row that an import wrote is stored. -/
theorem IsSound.isSome_lastImport? {a : Archive} (h : a.IsSound) :
    a.lastImport?.isSome = true ↔ ∃ id x, a.holdings id = some x ∧ x.imported = true := by
  rw [lastImport?, isSome_foldl_later, Option.isSome_none, Bool.false_or, Bool.not_eq_true',
    List.isEmpty_eq_false_iff_exists_mem]
  constructor
  · rintro ⟨t, ht⟩
    obtain ⟨e, he, ht⟩ := List.mem_filterMap.1 ht
    obtain ⟨r, hr, -, hf⟩ := h e he
    refine ⟨e.id, ⟨r, true⟩, h.holdings_eq_some.2 ⟨e, he, rfl, hr, hf.symm, ?_⟩, rfl⟩
    rw [ht, Option.isSome_some]
  · rintro ⟨id, x, hx, hi⟩
    obtain ⟨e, he, -, -, -, himported⟩ := h.holdings_eq_some.1 hx
    rw [hi] at himported
    obtain ⟨t, ht⟩ := Option.isSome_iff_exists.1 himported
    exact ⟨t, List.mem_filterMap.2 ⟨e, he, ht⟩⟩

end Archive

end ReleaseCatalog
