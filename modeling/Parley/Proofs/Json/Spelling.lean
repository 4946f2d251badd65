/-
  Parley.Proofs.Json.Spelling

  The ways to write a record. An assignment gives a value to each declared field, or none. What
  it reads as is settled field by field (`Fields.Reads`), and every way to write it down reads as
  that: an object that has the values under accepted names of their fields (`Fields.Names`), in
  any order and among entries that no field takes (`Fields.ofEntries_iff`), and an array of the
  values that leaves off fields with a default at its end (`Fields.ofArray_iff`). For values
  that the readers take for the same it does not matter either which one is assigned
  (`Fields.reads_congr`).

  The other way round, the values of a record that reads are such as the readers of its fields
  give (`Fields.gives_of_read`), so what holds of these holds of them.
-/
import Parley.Proofs.Json.Order

namespace Parley

/-! ### Parts that read -/

namespace Decode

variable {α β : Type}

theorem map_eq_ok {x : Except DecodeError α} {f : α → β} {b : β} :
    x.map f = .ok b ↔ ∃ a, x = .ok a ∧ f a = b := by
  cases x <;> simp [Except.map]

theorem bind_eq_ok {x : Except DecodeError α} {f : α → Except DecodeError β} {b : β} :
    x >>= f = .ok b ↔ ∃ a, x = .ok a ∧ f a = .ok b := by
  cases x <;> simp [bind, Except.bind]

theorem lt_of_natBelow {bound n : Nat} {type : String} {j : Json}
    (h : natBelow bound type j = .ok n) : n < bound := by
  unfold natBelow at h
  split at h
  · split at h
    · cases h
      omega
    · cases h
  · cases h

variable {read : Decoder α} {js js' : List Json} {l : List α}

theorem items_cons_eq_ok {j : Json} :
    items read (j :: js) = .ok l ↔
      ∃ a rest, read j = .ok a ∧ items read js = .ok rest ∧ a :: rest = l := by
  simp only [items, bind_eq_ok, pure, Except.pure, Except.ok.injEq, ← exists_and_left]

/-- Lists read alike if their items do. -/
theorem items_congr {same : Json → Json → Prop}
    (hsame : ∀ j j', same j j' → ∀ a, read j = .ok a ↔ read j' = .ok a)
    (h : List.Forall₂ same js js') : items read js = .ok l ↔ items read js' = .ok l := by
  induction h generalizing l with
  | nil => rfl
  | cons hhead _ ih => simp only [items_cons_eq_ok, hsame _ _ hhead, ih]

theorem mem_items (h : items read js = .ok l) {a : α} (ha : a ∈ l) : ∃ j, read j = .ok a := by
  induction js generalizing l with
  | nil =>
      cases h
      cases ha
  | cons j js ih =>
      obtain ⟨b, rest, hb, hrest, rfl⟩ := items_cons_eq_ok.1 h
      rcases List.mem_cons.1 ha with rfl | ha
      · exact ⟨j, hb⟩
      · exact ih hrest ha

end Decode

/-- A name is found among the entries that are kept, if its own are. -/
theorem Table.find_filter {α : Type} (keep : String → Bool) {name : String}
    (h : keep name = true) (l : List (String × α)) :
    find name (l.filter fun e => keep e.1) = find name l := by
  induction l with
  | nil => rfl
  | cons e l ih =>
      obtain ⟨k, a⟩ := e
      by_cases hname : k = name
      · subst hname
        simp [h, find]
      · cases hk : keep k <;> simp [hk, find, hname, ih]

namespace Fields

variable {α : Type} {αs : List Type}

/-! ### Assignments -/

/-- The assigned values read as those of the row; a field without value has its default. -/
def Reads : {αs : List Type} → Fields αs → List (Option Json) → Row αs → Prop
  | _, .nil, given, () => given = []
  | _, .cons f rest, some j :: given, (a, row) => f.read j = .ok a ∧ rest.Reads given row
  | _, .cons f rest, none :: given, (a, row) => f.absent = .ok a ∧ rest.Reads given row
  | _, .cons _ _, [], _ => False

/-- The entries are the assigned values in declared order, each under a name of its field. -/
inductive Names : {αs : List Type} → Fields αs → List (Option Json) → List (String × Json) → Prop
  | nil : Names .nil [] []
  | given {α : Type} {αs : List Type} {f : Field α} {fs : Fields αs} {name : String} {j : Json}
      {values : List (Option Json)} {es : List (String × Json)} (hname : f.accepts name = true)
      (hrest : Names fs values es) : Names (.cons f fs) (some j :: values) ((name, j) :: es)
  | absent {α : Type} {αs : List Type} {f : Field α} {fs : Fields αs}
      {values : List (Option Json)} {es : List (String × Json)} (hrest : Names fs values es) :
      Names (.cons f fs) (none :: values) es

/-- The elements are the assigned values in declared order; the fields without value are the
    last ones and have a default. -/
inductive Lists : {αs : List Type} → Fields αs → List (Option Json) → List Json → Prop
  | nil : Lists .nil [] []
  | given {α : Type} {αs : List Type} {f : Field α} {fs : Fields αs} {j : Json}
      {values : List (Option Json)} {js : List Json} (hrest : Lists fs values js) :
      Lists (.cons f fs) (some j :: values) (j :: js)
  | absent {α : Type} {αs : List Type} {f : Field α} {fs : Fields αs} {a : α}
      {values : List (Option Json)} (hdefault : f.absence = .default a)
      (hrest : Lists fs values []) : Lists (.cons f fs) (none :: values) []

/-! ### Names of fields -/

/-- No name is one of two fields. -/
def separate : {αs : List Type} → Fields αs → Bool
  | _, .nil => true
  | _, .cons f rest => (f.name :: f.other.toList).all (fun n => !rest.accepts n) && rest.separate

theorem not_accepts_of_separate {f : Field α} {fs : Fields αs} (h : (cons f fs).separate = true)
    {name : String} (hname : fs.accepts name = true) : f.accepts name = false := by
  have hnames := (Bool.and_eq_true_iff.1 h).1
  rw [List.all_eq_true] at hnames
  rw [← Bool.not_eq_true]
  intro haccepts
  simp only [Field.accepts, Bool.or_eq_true, beq_iff_eq] at haccepts
  have hmem : name ∈ f.name :: f.other.toList :=
    List.mem_cons.2 (haccepts.imp_right fun h => Option.mem_toList.2 h.symm)
  have hnot := hnames name hmem
  rw [hname] at hnot
  cases hnot

theorem Names.accepts {fs : Fields αs} {given : List (Option Json)} {es : List (String × Json)}
    (h : fs.Names given es) : ∀ e ∈ es, fs.accepts e.1 = true := by
  induction h with
  | nil => simp
  | @given _ _ f fs name j values es hname _ ih =>
      intro e he
      rcases List.mem_cons.1 he with rfl | he
      · simp [Fields.accepts, hname]
      · simp [Fields.accepts, ih e he]
  | @absent _ _ f fs values es _ ih =>
      intro e he
      simp [Fields.accepts, ih e he]

/-- The entries of an assignment under the first names of the fields. -/
def entriesOf : {αs : List Type} → Fields αs → List (Option Json) → List (String × Json)
  | _, .cons f rest, some j :: given => (f.name, j) :: rest.entriesOf given
  | _, .cons _ rest, none :: given => rest.entriesOf given
  | _, .cons _ _, [] => []
  | _, .nil, _ => []

theorem names_entriesOf {fs : Fields αs} {given : List (Option Json)}
    (h : given.length = fs.count) : fs.Names given (fs.entriesOf given) := by
  induction fs generalizing given with
  | nil =>
      obtain rfl := List.eq_nil_of_length_eq_zero h
      exact .nil
  | cons f fs ih =>
      cases given with
      | nil => cases h
      | cons value given =>
          have hrest := ih (Nat.succ.inj h)
          cases value with
          | none => exact .absent hrest
          | some j => exact .given (by simp [Field.accepts]) hrest

/-! ### Objects -/

theorem ofEntries_eq_ok {fs : Fields αs} {es : List (String × Json)} {row : Row αs} :
    fs.ofEntries es = .ok row ↔
      ∃ given, fs.enterAll es fs.blank = .ok given ∧ fs.settle given = .ok row := by
  rw [ofEntries]
  cases fs.enterAll es fs.blank <;> simp

theorem settle_some_eq_ok {f : Field α} {fs : Fields αs} {slot : α} {given : PartialRow αs}
    {a : α} {row : Row αs} :
    (cons f fs).settle (some slot, given) = .ok (a, row) ↔
      slot = a ∧ fs.settle given = .ok row := by
  simp only [settle]
  cases fs.settle given <;> simp [Except.map]

theorem settle_none_eq_ok {f : Field α} {fs : Fields αs} {given : PartialRow αs} {a : α}
    {row : Row αs} :
    (cons f fs).settle (none, given) = .ok (a, row) ↔
      f.absent = .ok a ∧ fs.settle given = .ok row := by
  simp only [settle]
  cases f.absent with
  | error e => simp
  | ok b => cases fs.settle given <;> simp [Except.map]

/-- Entries of later fields leave the first field as it is. -/
theorem enterAll_cons_eq_ok_of_not_accepts {f : Field α} {fs : Fields αs}
    {es : List (String × Json)} (hother : ∀ e ∈ es, f.accepts e.1 = false) {slot : Option α}
    {row : PartialRow αs} {out : PartialRow (α :: αs)} :
    (cons f fs).enterAll es (slot, row) = .ok out ↔
      ∃ row', fs.enterAll es row = .ok row' ∧ out = (slot, row') := by
  rw [enterAll_cons hother]
  cases fs.enterAll es row <;> simp [Except.map, eq_comm]

/-- An object that names the assigned values reads as the assignment. -/
theorem ofEntries_of_names {fs : Fields αs} (hseparate : fs.separate = true)
    {given : List (Option Json)} {es : List (String × Json)} (h : fs.Names given es)
    {row : Row αs} : fs.ofEntries es = .ok row ↔ fs.Reads given row := by
  induction h with
  | nil => simp [ofEntries, enterAll, settle, Reads]
  | @given α αs f fs name j values es hname hrest ih =>
      obtain ⟨a, row⟩ := row
      have hother : ∀ e ∈ es, f.accepts e.1 = false :=
        fun e he => not_accepts_of_separate hseparate (hrest.accepts e he)
      rw [Reads, ← ih (Bool.and_eq_true_iff.1 hseparate).2, ofEntries_eq_ok, ofEntries_eq_ok]
      -- The first entry fills the first slot, and the others fill only later ones.
      constructor
      · rintro ⟨out, hall, hsettle⟩
        obtain ⟨between, hfirst, hall⟩ := enterAll_cons_eq_ok.1 hall
        rcases enter_cons_eq_ok.1 hfirst with ⟨-, -, b, hb, rfl⟩ | ⟨hnot, -⟩
        · obtain ⟨given, hgiven, rfl⟩ := (enterAll_cons_eq_ok_of_not_accepts hother).1 hall
          obtain ⟨rfl, hrow⟩ := settle_some_eq_ok.1 hsettle
          exact ⟨hb, given, hgiven, hrow⟩
        · rw [hname] at hnot
          cases hnot
      · rintro ⟨ha, given, hgiven, hrow⟩
        refine ⟨(some a, given), ?_, settle_some_eq_ok.2 ⟨rfl, hrow⟩⟩
        refine enterAll_cons_eq_ok.2 ⟨(some a, fs.blank), ?_, ?_⟩
        · exact enter_cons_eq_ok.2 (.inl ⟨hname, rfl, a, ha, rfl⟩)
        · exact (enterAll_cons_eq_ok_of_not_accepts hother).2 ⟨given, hgiven, rfl⟩
  | @absent α αs f fs values es hrest ih =>
      obtain ⟨a, row⟩ := row
      have hother : ∀ e ∈ es, f.accepts e.1 = false :=
        fun e he => not_accepts_of_separate hseparate (hrest.accepts e he)
      rw [Reads, ← ih (Bool.and_eq_true_iff.1 hseparate).2, ofEntries_eq_ok, ofEntries_eq_ok]
      constructor
      · rintro ⟨out, hall, hsettle⟩
        obtain ⟨given, hgiven, rfl⟩ := (enterAll_cons_eq_ok_of_not_accepts hother).1 hall
        obtain ⟨ha, hrow⟩ := settle_none_eq_ok.1 hsettle
        exact ⟨ha, given, hgiven, hrow⟩
      · rintro ⟨ha, given, hgiven, hrow⟩
        refine ⟨(none, given), ?_, settle_none_eq_ok.2 ⟨ha, hrow⟩⟩
        exact (enterAll_cons_eq_ok_of_not_accepts hother).2 ⟨given, hgiven, rfl⟩

/-- Without entries that no field takes, an object reads the same, errors included. -/
theorem ofEntries_filter {fs : Fields αs} (keep : String → Bool)
    (hkeep : ∀ name, fs.accepts name = true → keep name = true) (es : List (String × Json)) :
    fs.ofEntries (es.filter fun e => keep e.1) = fs.ofEntries es := by
  have hall (row : PartialRow αs) :
      fs.enterAll (es.filter fun e => keep e.1) row = fs.enterAll es row := by
    induction es generalizing row with
    | nil => rfl
    | cons e es ih =>
        obtain ⟨name, j⟩ := e
        cases hname : keep name with
        | true =>
            simp only [List.filter_cons, hname, if_true, enterAll]
            cases fs.enter name j row with
            | error e => rfl
            | ok row => exact ih row
        | false =>
            have hnot : fs.accepts name = false := by
              rw [← Bool.not_eq_true]
              intro haccepts
              rw [hkeep name haccepts] at hname
              cases hname
            rw [List.filter_cons_of_neg (by simp [hname]), enterAll, enter_of_not_accepts hnot]
            exact ih row
  rw [ofEntries, ofEntries, hall]

/-- An object reads as the assignment that it names, in whatever order and whatever else there
    is. -/
theorem ofEntries_iff {fs : Fields αs} (hseparate : fs.separate = true)
    {given : List (Option Json)} {named extra es : List (String × Json)}
    (h : fs.Names given named) (hextra : ∀ e ∈ extra, fs.accepts e.1 = false)
    (hperm : es.Perm (named ++ extra)) {row : Row αs} :
    fs.ofEntries es = .ok row ↔ fs.Reads given row := by
  have hfilter : (named ++ extra).filter (fun e => fs.accepts e.1) = named := by
    rw [List.filter_append, List.filter_eq_self.2 h.accepts,
      List.filter_eq_nil_iff.2 fun e he => by simp [hextra e he], List.append_nil]
  have hnamed : fs.ofEntries (named ++ extra) = fs.ofEntries named := by
    rw [← ofEntries_filter fs.accepts (fun _ h => h), hfilter]
  rw [← ofEntries_of_names hseparate h, ← hnamed]
  exact ⟨ofEntries_perm hperm, ofEntries_perm hperm.symm⟩

/-! ### Arrays -/

theorem ofElements_cons_eq_ok {f : Field α} {fs : Fields αs} {expected : String} {index : Nat}
    {j : Json} {js left : List Json} {a : α} {row : Row αs} :
    (cons f fs).ofElements expected index (j :: js) = .ok ((a, row), left) ↔
      f.read j = .ok a ∧ fs.ofElements expected (index + 1) js = .ok (row, left) := by
  rw [ofElements]
  cases f.read j with
  | error e => simp
  | ok b =>
      cases fs.ofElements expected (index + 1) js with
      | error e => simp [Except.map]
      | ok out => simp [Except.map, Prod.ext_iff, and_assoc]

theorem ofElements_nil_eq_ok {f : Field α} {fs : Fields αs} {expected : String} {index : Nat}
    {left : List Json} {a : α} {row : Row αs} :
    (cons f fs).ofElements expected index [] = .ok ((a, row), left) ↔
      f.absence = .default a ∧ fs.ofElements expected (index + 1) [] = .ok (row, left) := by
  rw [ofElements]
  cases f.absence with
  | required | omitted => simp
  | default b =>
      cases fs.ofElements expected (index + 1) [] with
      | error e => simp [Except.map]
      | ok out => simp [Except.map, Prod.ext_iff, and_assoc]

theorem ofElements_iff {fs : Fields αs} {given : List (Option Json)} {js : List Json}
    (h : fs.Lists given js) (expected : String) (index : Nat) {row : Row αs}
    {left : List Json} :
    fs.ofElements expected index js = .ok (row, left) ↔ fs.Reads given row ∧ left = [] := by
  induction h generalizing index with
  | nil => simp [ofElements, Reads, eq_comm]
  | @given α αs f fs j values js hrest ih =>
      obtain ⟨a, row⟩ := row
      rw [ofElements_cons_eq_ok, ih, Reads, and_assoc]
  | @absent α αs f fs b values hdefault hrest ih =>
      obtain ⟨a, row⟩ := row
      rw [ofElements_nil_eq_ok, ih, Reads, and_assoc, Field.absent, hdefault]
      simp only [Except.ok.injEq, Absence.default.injEq]

theorem ofArray_eq_ok {fs : Fields αs} {title : String} {js : List Json} {row : Row αs} :
    fs.ofArray title js = .ok row ↔
      fs.ofElements (title ++ " with " ++ DecodeError.elements fs.count) 0 js = .ok (row, []) := by
  rw [ofArray]
  cases fs.ofElements (title ++ " with " ++ DecodeError.elements fs.count) 0 js with
  | error e => simp
  | ok out =>
      obtain ⟨found, left⟩ := out
      cases left <;> simp

/-- An array reads as the assignment that it lists. -/
theorem ofArray_iff {fs : Fields αs} {given : List (Option Json)} {js : List Json}
    (h : fs.Lists given js) (title : String) {row : Row αs} :
    fs.ofArray title js = .ok row ↔ fs.Reads given row := by
  rw [ofArray_eq_ok, ofElements_iff h]
  exact and_iff_left rfl

/-! ### Either form -/

/-- The tree is a record of the assignment. -/
inductive Spells (fs : Fields αs) (given : List (Option Json)) : Json → Prop
  | object {named extra es : List (String × Json)} (hnames : fs.Names given named)
      (hextra : ∀ e ∈ extra, fs.accepts e.1 = false) (hperm : es.Perm (named ++ extra)) :
      Spells fs given (.obj es)
  | array {js : List Json} (hlists : fs.Lists given js) : Spells fs given (.arr js)

/-- Every record of an assignment reads as the assignment. -/
theorem read_iff {fs : Fields αs} (hseparate : fs.separate = true) {given : List (Option Json)}
    {j : Json} (h : fs.Spells given j) (title : String) {row : Row αs} :
    fs.read title j = .ok row ↔ fs.Reads given row := by
  cases h with
  | object hnames hextra hperm => exact ofEntries_iff hseparate hnames hextra hperm
  | array hlists => exact ofArray_iff hlists title

/-! ### Values that read alike -/

/-- The two assignments give values to the same fields, and values that are the same there. -/
inductive Alike (same : String → Json → Json → Prop) :
    {αs : List Type} → Fields αs → List (Option Json) → List (Option Json) → Prop
  | nil : Alike same .nil [] []
  | given {α : Type} {αs : List Type} {f : Field α} {fs : Fields αs} {j j' : Json}
      {values values' : List (Option Json)} (hsame : same f.name j j')
      (hrest : Alike same fs values values') :
      Alike same (.cons f fs) (some j :: values) (some j' :: values')
  | absent {α : Type} {αs : List Type} {f : Field α} {fs : Fields αs}
      {values values' : List (Option Json)} (hrest : Alike same fs values values') :
      Alike same (.cons f fs) (none :: values) (none :: values')

/-- The readers do not tell values apart that are the same. -/
def Respects (same : String → Json → Json → Prop) : {αs : List Type} → Fields αs → Prop
  | _, .nil => True
  | _, .cons f rest =>
    (∀ j j', same f.name j j' → ∀ a, f.read j = .ok a ↔ f.read j' = .ok a) ∧ rest.Respects same

theorem respects_of_eq {same : String → Json → Json → Prop}
    (h : ∀ name j j', same name j j' → j = j') (fs : Fields αs) : fs.Respects same := by
  induction fs with
  | nil => trivial
  | cons f fs ih => exact ⟨fun j j' hsame a => by rw [h f.name j j' hsame], ih⟩

theorem reads_congr {same : String → Json → Json → Prop} {fs : Fields αs}
    (hrespects : fs.Respects same) {given values : List (Option Json)}
    (h : fs.Alike same given values) {row : Row αs} :
    fs.Reads given row ↔ fs.Reads values row := by
  induction h with
  | nil => rfl
  | @given α αs f fs j j' values values' hsame hrest ih =>
      obtain ⟨a, row⟩ := row
      rw [Reads, Reads, ih hrespects.2, hrespects.1 j j' hsame a]
  | @absent α αs f fs values values' hrest ih =>
      obtain ⟨a, row⟩ := row
      rw [Reads, Reads, ih hrespects.2]

theorem alike_self {same : String → Json → Json → Prop} (hself : ∀ name j, same name j j)
    {fs : Fields αs} {given : List (Option Json)} (h : given.length = fs.count) :
    fs.Alike same given given := by
  induction fs generalizing given with
  | nil =>
      obtain rfl := List.eq_nil_of_length_eq_zero h
      exact .nil
  | cons f fs ih =>
      cases given with
      | nil => cases h
      | cons value given =>
          have hrest := ih (Nat.succ.inj h)
          cases value with
          | none => exact .absent hrest
          | some j => exact .given (hself f.name j) hrest

/-! ### What rows are made of -/

/-- Each value of the row is one that the reader of its field gives, or that of an absent field. -/
def Gives : {αs : List Type} → Fields αs → Row αs → Prop
  | _, .nil, () => True
  | _, .cons f rest, (a, row) => ((∃ j, f.read j = .ok a) ∨ f.absent = .ok a) ∧ rest.Gives row

/-- Each value that was given so far is one that the reader of its field gives. -/
def GivesSoFar : {αs : List Type} → Fields αs → PartialRow αs → Prop
  | _, .nil, () => True
  | _, .cons f rest, (slot, row) => (∀ a ∈ slot, ∃ j, f.read j = .ok a) ∧ rest.GivesSoFar row

theorem givesSoFar_blank (fs : Fields αs) : fs.GivesSoFar fs.blank := by
  induction fs with
  | nil => trivial
  | cons f fs ih => exact ⟨nofun, ih⟩

theorem GivesSoFar.enter {fs : Fields αs} {name : String} {j : Json} {row row' : PartialRow αs}
    (h : fs.GivesSoFar row) (henter : fs.enter name j row = .ok row') : fs.GivesSoFar row' := by
  induction fs with
  | nil => trivial
  | cons f fs ih =>
      obtain ⟨slot, row⟩ := row
      rcases enter_cons_eq_ok.1 henter with ⟨-, -, a, ha, rfl⟩ | ⟨-, rest, hrest, rfl⟩
      · refine ⟨?_, h.2⟩
        rintro b ⟨⟩
        exact ⟨j, ha⟩
      · exact ⟨h.1, ih h.2 hrest⟩

theorem GivesSoFar.enterAll {fs : Fields αs} {es : List (String × Json)}
    {row row' : PartialRow αs} (h : fs.GivesSoFar row) (hall : fs.enterAll es row = .ok row') :
    fs.GivesSoFar row' := by
  induction es generalizing row with
  | nil =>
      cases hall
      exact h
  | cons e es ih =>
      obtain ⟨between, hfirst, hrest⟩ := enterAll_cons_eq_ok.1 hall
      exact ih (h.enter hfirst) hrest

theorem GivesSoFar.settle {fs : Fields αs} {given : PartialRow αs} {row : Row αs}
    (h : fs.GivesSoFar given) (hsettle : fs.settle given = .ok row) : fs.Gives row := by
  induction fs with
  | nil => trivial
  | cons f fs ih =>
      obtain ⟨slot, given⟩ := given
      obtain ⟨a, row⟩ := row
      cases slot with
      | none =>
          obtain ⟨ha, hrest⟩ := settle_none_eq_ok.1 hsettle
          exact ⟨.inr ha, ih h.2 hrest⟩
      | some b =>
          obtain ⟨rfl, hrest⟩ := settle_some_eq_ok.1 hsettle
          exact ⟨.inl (h.1 b rfl), ih h.2 hrest⟩

theorem gives_of_ofElements {fs : Fields αs} {expected : String} {index : Nat}
    {js left : List Json} {row : Row αs}
    (h : fs.ofElements expected index js = .ok (row, left)) : fs.Gives row := by
  induction fs generalizing index js with
  | nil => trivial
  | cons f fs ih =>
      obtain ⟨a, row⟩ := row
      cases js with
      | nil =>
          obtain ⟨hdefault, hrest⟩ := ofElements_nil_eq_ok.1 h
          exact ⟨.inr (by rw [Field.absent, hdefault]), ih hrest⟩
      | cons j js =>
          obtain ⟨ha, hrest⟩ := ofElements_cons_eq_ok.1 h
          exact ⟨.inl ⟨j, ha⟩, ih hrest⟩

/-- The values of a record that reads are such as its readers give. -/
theorem gives_of_read {fs : Fields αs} {title : String} {j : Json} {row : Row αs}
    (h : fs.read title j = .ok row) : fs.Gives row := by
  cases j with
  | obj es =>
      obtain ⟨given, hall, hsettle⟩ := ofEntries_eq_ok.1 h
      exact ((givesSoFar_blank fs).enterAll hall).settle hsettle
  | arr js => exact gives_of_ofElements (ofArray_eq_ok.1 h)
  | null | bool _ | num _ | str _ | unreadable => cases h

end Fields

end Parley
